/-
  Badnet.Nodelist.Reload — which file the consensus in use is read from (`router_reload_consensus_networkstatus`,
  `reload_consensus_from_file`, `networkstatus_set_current_consensus`).

  Four files are read one after the other; a client may read GSRI in the place of cached-microdesc-consensus. Every
  document that is read takes the place of the one before, whatever its times and signatures. So the consensus in use is
  the one of GSRI exactly if GSRI is read and unverified-microdesc-consensus is not (`gsri_in_use_iff`).

  A file system is what its paths hold. Of the flags, only NSSET_REQUIRE_FLAVOR decides which consensus is in use. The
  notifications about the change are left out; of these, `nodelist_set_consensus` ends in every state.
-/

import Badnet.Nodelist.Networkstatus

namespace Badnet.Nodelist.Reload

open Lib Encoding Container Dirparse Nodelist

/-! ## Options -/

structure OrOptions where
  cacheDirectory : Text
  clientOnly : Bool := false
  orPortSet : Bool := false
  socksPortSet : Bool := true
  transPortSet : Bool := false
  natdPortSet : Bool := false
  dnsPortSet : Bool := false
  httpTunnelPortSet : Bool := false
  useMicrodescriptors : Int := -1
  fetchUselessDescriptors : Bool := false
  /-- `authdir_mode_v3(options)` -/
  authdirModeV3 : Bool := false
  /-- `directory_caches_dir_info(options)` -/
  directoryCachesDirInfo : Bool := false
  deriving DecidableEq, Repr

section

variable (options : OrOptions)

def serverMode : Bool := if options.clientOnly then false else options.orPortSet

def optionsAnyClientPortSet : Bool :=
  options.socksPortSet || options.transPortSet || options.natdPortSet || options.dnsPortSet ||
    options.httpTunnelPortSet

/-- `is_client` of `reload_consensus_from_file`. -/
def isClient : Bool := optionsAnyClientPortSet options || ! serverMode options

def weUseMicrodescriptorsForCircuits : Bool := options.useMicrodescriptors ≠ 0

def usableConsensusFlavor : Flavor := if weUseMicrodescriptorsForCircuits options then .MICRODESC else .NS

def weWantToFetchFlavor (flavor : Flavor) : Bool :=
  if options.authdirModeV3 || options.directoryCachesDirInfo then true
  else if options.fetchUselessDescriptors then true
  else flavor = usableConsensusFlavor options

end

/-! ## Files -/

def clientPath : Text := "/usr/local/BADNET-V3-client/".toList

def filePathOld : Text := clientPath ++ "lib/cached-microdesc-consensus".toList

/-- The path of GSRI. -/
def filePathNew : Text := clientPath ++ "lib/GSRI".toList

def networkstatusGetFlavorName : Flavor → Text
  | .NS => "ns".toList
  | .MICRODESC => "microdesc".toList

def networkstatusParseFlavorName (flavname : Text) : Option Flavor :=
  if flavname = "ns".toList then some .NS
  else if flavname = "microdesc".toList then some .MICRODESC
  else none

def networkstatusGetCacheFname (options : OrOptions) (flav : Flavor) (flavorname : Text) (unverified : Bool) : Text :=
  let before := if unverified then "unverified".toList else "cached".toList
  let buf := match flav with
    | .NS => before ++ "-consensus".toList
    | .MICRODESC => before ++ '-' :: flavorname ++ "-consensus".toList
  options.cacheDirectory ++ '/' :: buf

abbrev Files := Text → Option Text

/-- `tor_mmap_file`: NULL for an empty file as well. -/
def torMmapFile (files : Files) (fname : Text) : Option Text := (files fname).filter fun data => ! data.isEmpty

/-! ## The consensus in use -/

theorem copy_rs (ns : NetworkStatus) (old : Option (List ConsensusEntry)) :
    (networkstatusCopyOldConsensusInfo (freshEntries ns) old).map (·.rs) = ns.routerstatusList := by
  have hfresh := (entriesOf_fresh ns).1
  cases old with
  | none => exact hfresh
  | some olds =>
    by_cases h : olds = []
    · subst h
      exact hfresh
    · rw [copy_eq h, List.map_map]
      have hrs : ((·.rs) ∘ copied : Option ConsensusEntry × ConsensusEntry → RouterStatus) = (·.rs) ∘ Prod.snd := by
        funext p
        exact copied_rs p
      rw [hrs, ← List.map_map, consensusJoin, foreachJoin_snd]
      exact hfresh

/-- A `networkstatus_t`, with what was learnt about its relays. -/
structure Consensus where
  ns : NetworkStatus
  entries : List ConsensusEntry
  entries_ns : entries.map (·.rs) = ns.routerstatusList
  /-- Ghost: the file that it was read from in the reload under way. -/
  source : Option Text

/-- `current_ns_consensus` and `current_md_consensus`. -/
structure State where
  currentNs : Option Consensus := none
  currentMd : Option Consensus := none

/-- The document, with what the old one knew about its relays. -/
def taken (fname : Text) (c : NetworkStatus) (old : Option Consensus) : Consensus where
  ns := c
  entries := networkstatusCopyOldConsensusInfo (freshEntries c) (old.map (·.entries))
  entries_ns := copy_rs c _
  source := some fname

section

variable (rsa : Rsa) (options : OrOptions)

/-- `fname` is the file of the text, `requireFlavor` the flag NSSET_REQUIRE_FLAVOR; 0, -1 or -2 is returned. -/
def networkstatusSetCurrentConsensus (fname consensus flavor : Text) (requireFlavor : Bool) (s : State) :
    State × Int :=
  match networkstatusParseFlavorName flavor with
  | none => (s, -2)
  | some flav =>
    match networkstatusParseVoteFromString rsa consensus .CONSENSUS with
    | .error _ => (s, -2)
    | .ok c =>
      if c.flavor ≠ flav ∧ requireFlavor then (s, -1)
      else if c.flavor ≠ usableConsensusFlavor options ∧ ! weWantToFetchFlavor options c.flavor then (s, -1)
      else
        match c.flavor with
        | .NS => ({ s with currentNs := some (taken fname c s.currentNs) }, 0)
        | .MICRODESC => ({ s with currentMd := some (taken fname c s.currentMd) }, 0)

/-- The name of the file that is read for `fname`. -/
def fileRead (fname : Text) : Text := if isClient options && fname = filePathOld then filePathNew else fname

variable (files : Files) (fname : Text)

def reloadConsensusFromFile (flavor : Text) (s : State) : State × Int :=
  let fname := fileRead options fname
  match torMmapFile files fname with
  | none => (s, 0)
  | some map => networkstatusSetCurrentConsensus rsa options fname map flavor false s

variable (s : State)

/-- The body of the loop over the flavors. -/
def reloadFlavor (flav : Flavor) : State :=
  let flavor := networkstatusGetFlavorName flav
  let s := (reloadConsensusFromFile rsa options files (networkstatusGetCacheFname options flav flavor false) flavor s).1
  (reloadConsensusFromFile rsa options files (networkstatusGetCacheFname options flav flavor true) flavor s).1

/-- The consensuses from before the reload have no file of it. -/
def State.start : State where
  currentNs := s.currentNs.map fun c => { c with source := none }
  currentMd := s.currentMd.map fun c => { c with source := none }

def routerReloadConsensusNetworkstatus : State :=
  [.NS, .MICRODESC].foldl (reloadFlavor rsa options files) s.start

/-! ## What one file does -/

/-- Microdesc consensuses are not dropped. -/
def TakesMicrodesc : Prop := usableConsensusFlavor options = .MICRODESC ∨ weWantToFetchFlavor options .MICRODESC = true

instance : Decidable (TakesMicrodesc options) := inferInstanceAs (Decidable (_ ∨ _))

/-- The document of a file: none if the file is absent, empty or not accepted. -/
def documentRead : Option NetworkStatus :=
  (torMmapFile files fname).bind fun map => (networkstatusParseVoteFromString rsa map .CONSENSUS).toOption

def load : State :=
  if TakesMicrodesc options then
    match documentRead rsa files fname with
    | none => s
    | some c => { s with currentMd := some (taken fname c s.currentMd) }
  else s

/-- The parser has one flavor. -/
theorem parse_flavor {map : Text} {c : NetworkStatus} (h : networkstatusParseVoteFromString rsa map .CONSENSUS = .ok c) :
    c.flavor = .MICRODESC := by
  rw [networkstatusParse_eq] at h
  cases hl : routerstatusLoop rsa 29 .MICRODESC map with
  | error e =>
    rw [hl] at h
    cases h
  | ok list =>
    rw [hl] at h
    cases h
    rfl

theorem setCurrent_eq (map : Text) (flav : Flavor) (s : State) :
    (networkstatusSetCurrentConsensus rsa options fname map (networkstatusGetFlavorName flav) false s).1 =
      if TakesMicrodesc options then
        match (networkstatusParseVoteFromString rsa map .CONSENSUS).toOption with
        | none => s
        | some c => { s with currentMd := some (taken fname c s.currentMd) }
      else s := by
  have hflav : networkstatusParseFlavorName (networkstatusGetFlavorName flav) = some flav := by
    cases flav with
    | NS => rfl
    | MICRODESC => rfl
  unfold networkstatusSetCurrentConsensus
  rw [hflav]
  cases hp : networkstatusParseVoteFromString rsa map .CONSENSUS with
  | error e => exact (ite_self s).symm
  | ok c =>
    have hc := parse_flavor rsa hp
    by_cases ht : TakesMicrodesc options
    · have hkept : ¬ (c.flavor ≠ usableConsensusFlavor options ∧ ! weWantToFetchFlavor options c.flavor) := by
        rw [hc]
        rintro ⟨hne, hfetch⟩
        rcases ht with hu | hw
        · exact hne hu.symm
        · rw [hw] at hfetch
          cases hfetch
      dsimp only [Except.toOption]
      rw [if_pos ht, if_neg (by simp), if_neg hkept, hc]
    · have hdropped : c.flavor ≠ usableConsensusFlavor options ∧ ! weWantToFetchFlavor options c.flavor := by
        rw [hc]
        refine ⟨fun e => ht (.inl e.symm), ?_⟩
        rw [Bool.not_eq_true']
        exact Bool.eq_false_iff.mpr fun hw => ht (.inr hw)
      dsimp only
      rw [if_neg ht, if_neg (by simp), if_pos hdropped]

theorem reload_eq (flav : Flavor) (s : State) :
    (reloadConsensusFromFile rsa options files fname (networkstatusGetFlavorName flav) s).1 =
      load rsa options files (fileRead options fname) s := by
  unfold reloadConsensusFromFile load documentRead
  dsimp only
  cases torMmapFile files (fileRead options fname) with
  | none => exact (ite_self s).symm
  | some map => exact setCurrent_eq rsa options _ map flav s

/-! ## The four files -/

/-- Paths with unequal ends are unequal. -/
theorem append_ne (dir dir' : Text) {a b : Text} (hlen : a.length ≤ b.length) (h : ¬ a <:+ b) :
    dir ++ a ≠ dir' ++ b := by
  intro e
  refine h (List.suffix_of_suffix_length_le ?_ (List.suffix_append dir' b) hlen)
  rw [← e]
  exact List.suffix_append dir a

def cachedConsensus : Text := options.cacheDirectory ++ "/cached-consensus".toList

def unverifiedConsensus : Text := options.cacheDirectory ++ "/unverified-consensus".toList

def cachedMicrodescConsensus : Text := options.cacheDirectory ++ "/cached-microdesc-consensus".toList

def unverifiedMicrodescConsensus : Text := options.cacheDirectory ++ "/unverified-microdesc-consensus".toList

theorem fileRead_of_ne {fname : Text} (h : fname ≠ filePathOld) : fileRead options fname = fname := by
  unfold fileRead
  rw [if_neg]
  rw [Bool.and_eq_true, decide_eq_true_eq]
  exact fun hc => h hc.2

theorem fileRead_cachedMicrodesc : fileRead options (cachedMicrodescConsensus options) =
    if isClient options = true ∧ options.cacheDirectory = clientPath ++ "lib".toList then filePathNew
    else cachedMicrodescConsensus options := by
  have hold : filePathOld = clientPath ++ "lib".toList ++ "/cached-microdesc-consensus".toList := rfl
  unfold fileRead
  refine if_congr ?_ rfl rfl
  rw [Bool.and_eq_true, decide_eq_true_eq, hold, cachedMicrodescConsensus, List.append_left_inj]

/-- The reload: GSRI, or what it takes the place of, is the third of the four. -/
theorem reload_run :
    routerReloadConsensusNetworkstatus rsa options files s =
      load rsa options files (unverifiedMicrodescConsensus options)
        (load rsa options files (fileRead options (cachedMicrodescConsensus options))
          (load rsa options files (unverifiedConsensus options)
            (load rsa options files (cachedConsensus options) s.start))) := by
  have hne : ∀ a ∈ ["/cached-consensus", "/unverified-consensus", "/unverified-microdesc-consensus"],
      options.cacheDirectory ++ a.toList ≠ filePathOld := by
    intro a ha
    simp only [List.mem_cons, List.not_mem_nil, or_false] at ha
    have hold : filePathOld = "/usr/local/".toList ++ "BADNET-V3-client/lib/cached-microdesc-consensus".toList := rfl
    rw [hold]
    rcases ha with rfl | rfl | rfl
    · exact append_ne _ _ (by decide) (by decide)
    · exact append_ne _ _ (by decide) (by decide)
    · exact append_ne _ _ (by decide) (by decide)
  have h1 : fileRead options (cachedConsensus options) = cachedConsensus options :=
    fileRead_of_ne options (hne "/cached-consensus" (by simp))
  have h2 : fileRead options (unverifiedConsensus options) = unverifiedConsensus options :=
    fileRead_of_ne options (hne "/unverified-consensus" (by simp))
  have h4 : fileRead options (unverifiedMicrodescConsensus options) = unverifiedMicrodescConsensus options :=
    fileRead_of_ne options (hne "/unverified-microdesc-consensus" (by simp))
  simp only [routerReloadConsensusNetworkstatus, List.foldl_cons, List.foldl_nil, reloadFlavor, reload_eq]
  rw [← h1, ← h2, ← h4]
  rfl

/-! ## The consensus that is left -/

/-- The microdesc consensus in use is the object that was made of the file, and it says `ns`. -/
def InUse (fname : Text) (ns : NetworkStatus) : Prop :=
  ∃ c, s.currentMd = some c ∧ c.source = some fname ∧ c.ns = ns

/-- The process reads GSRI, and takes what it says. -/
def ReadsGSRI : Prop :=
  isClient options = true ∧ options.cacheDirectory = clientPath ++ "lib".toList ∧ TakesMicrodesc options

instance : Decidable (ReadsGSRI options) := inferInstanceAs (Decidable (_ ∧ _ ∧ _))

def NotFrom : Prop := ∀ c ∈ s.currentMd, c.source ≠ some fname

theorem load_taken {files : Files} {fname : Text} {ns : NetworkStatus} (ht : TakesMicrodesc options)
    (h : documentRead rsa files fname = some ns) (s : State) :
    load rsa options files fname s = { s with currentMd := some (taken fname ns s.currentMd) } := by
  unfold load
  rw [if_pos ht, h]

theorem load_none {files : Files} {fname : Text} (h : documentRead rsa files fname = none) (s : State) :
    load rsa options files fname s = s := by
  unfold load
  rw [h]
  exact ite_self s

/-- Another file, one that is not taken, or no file at all do not make a consensus one of the file. -/
theorem load_notFrom {files : Files} {fname source : Text} {s : State} (hs : NotFrom source s)
    (h : TakesMicrodesc options → documentRead rsa files fname ≠ none → fname ≠ source) :
    NotFrom source (load rsa options files fname s) := by
  by_cases ht : TakesMicrodesc options
  · cases hd : documentRead rsa files fname with
    | none =>
      rw [load_none rsa options hd]
      exact hs
    | some ns =>
      rw [load_taken rsa options ht hd]
      intro c hc
      cases hc
      have hne := h ht (by rw [hd]; exact Option.some_ne_none ns)
      exact fun e => hne (Option.some.inj e)
  · unfold load
    rw [if_neg ht]
    exact hs

theorem start_notFrom : NotFrom fname s.start := by
  intro c hc
  obtain ⟨c', -, rfl⟩ := Option.map_eq_some_iff.mp hc
  exact (Option.some_ne_none fname).symm

variable {rsa options}

theorem documentRead_accepted {files : Files} {fname data : Text} {ns : NetworkStatus} (hfile : files fname = some data)
    (hns : networkstatusParseVoteFromString rsa data .CONSENSUS = .ok ns) :
    documentRead rsa files fname = if data = [] then none else some ns := by
  unfold documentRead torMmapFile
  rw [hfile]
  by_cases hd : data = []
  · subst hd
    rfl
  · have hkept : (some data).filter (fun data => ! data.isEmpty) = some data := by
      apply Option.filter_some_pos
      rw [Bool.not_eq_true', List.isEmpty_eq_false_iff]
      exact hd
    rw [if_neg hd, hkept, Option.bind_some, hns]
    rfl

/-- No name of the cache directory is that of GSRI. -/
theorem cacheFname_ne (name : Text) : options.cacheDirectory ++ (name ++ "-consensus".toList) ≠ filePathNew := by
  have hnew : filePathNew = "/usr/local/".toList ++ "BADNET-V3-client/lib/GSRI".toList := rfl
  rw [hnew, ← List.append_assoc]
  exact append_ne _ _ (by decide) (by decide)

/-- Before the last file: the consensus of GSRI if it is read, of another file or of none if it is not. -/
theorem before_last (files : Files) (s : State) (data : Text) (ns : NetworkStatus) (hgsri : files filePathNew = some data)
    (hns : networkstatusParseVoteFromString rsa data .CONSENSUS = .ok ns) :
    ∃ s₃, routerReloadConsensusNetworkstatus rsa options files s =
        load rsa options files (unverifiedMicrodescConsensus options) s₃ ∧
      (ReadsGSRI options ∧ data ≠ [] → InUse s₃ filePathNew ns) ∧
      (¬ (ReadsGSRI options ∧ data ≠ []) → NotFrom filePathNew s₃) := by
  refine ⟨_, reload_run rsa options files s, ?_, ?_⟩
  · rintro ⟨⟨hclient, hdir, ht⟩, hdata⟩
    have hread := documentRead_accepted hgsri hns
    rw [if_neg hdata] at hread
    rw [fileRead_cachedMicrodesc, if_pos ⟨hclient, hdir⟩, load_taken rsa options ht hread]
    exact ⟨_, rfl, rfl, rfl⟩
  · intro hnot
    refine load_notFrom rsa options (load_notFrom rsa options (load_notFrom rsa options (start_notFrom _ s) ?_) ?_) ?_
    · exact fun _ _ => cacheFname_ne "/cached".toList
    · exact fun _ _ => cacheFname_ne "/unverified".toList
    · intro ht hread
      rw [fileRead_cachedMicrodesc] at hread ⊢
      by_cases hc : isClient options = true ∧ options.cacheDirectory = clientPath ++ "lib".toList
      · rw [if_pos hc, documentRead_accepted hgsri hns] at hread
        have hdata : data ≠ [] := by
          intro e
          rw [if_pos e] at hread
          exact hread rfl
        exact absurd ⟨⟨hc.1, hc.2, ht⟩, hdata⟩ hnot
      · rw [if_neg hc]
        exact cacheFname_ne "/cached-microdesc".toList

/-- The consensus in use is the one read from GSRI exactly if GSRI is read and not empty, and nothing is read from
unverified-microdesc-consensus. If something is, it must say nothing else. -/
theorem gsri_in_use_iff (rsa : Rsa) (options : OrOptions) (files : Files) (s : State) (data : Text) (ns : NetworkStatus)
    (hgsri : files filePathNew = some data) (hns : networkstatusParseVoteFromString rsa data .CONSENSUS = .ok ns) :
    (InUse (routerReloadConsensusNetworkstatus rsa options files s) filePathNew ns ↔
      ReadsGSRI options ∧ data ≠ [] ∧ documentRead rsa files (unverifiedMicrodescConsensus options) = none) ∧
    (ReadsGSRI options → data ≠ [] →
      ((∃ c, (routerReloadConsensusNetworkstatus rsa options files s).currentMd = some c ∧ c.ns = ns) ↔
        ∀ other, documentRead rsa files (unverifiedMicrodescConsensus options) = some other → other = ns)) := by
  obtain ⟨s₃, hrun, hread, hnot⟩ := before_last files s data ns hgsri hns
  rw [hrun]
  cases hd : documentRead rsa files (unverifiedMicrodescConsensus options) with
  | none =>
    rw [load_none rsa options hd]
    refine ⟨⟨fun hin => ?_, fun h => hread ⟨h.1, h.2.1⟩⟩, fun hr hdata => ?_⟩
    · by_cases h : ReadsGSRI options ∧ data ≠ []
      · exact ⟨h.1, h.2, rfl⟩
      · obtain ⟨c, hc, hsource, -⟩ := hin
        exact absurd hsource (hnot h c hc)
    · obtain ⟨c, hc, -, hcns⟩ := hread ⟨hr, hdata⟩
      exact ⟨fun _ other ho => (by cases ho), fun _ => ⟨c, hc, hcns⟩⟩
  | some other =>
    have hne : unverifiedMicrodescConsensus options ≠ filePathNew := cacheFname_ne "/unverified-microdesc".toList
    refine ⟨⟨fun hin => ?_, fun h => (by cases h.2.2)⟩, fun hr hdata => ?_⟩
    · exfalso
      by_cases ht : TakesMicrodesc options
      · rw [load_taken rsa options ht hd] at hin
        obtain ⟨c, hc, hsource, -⟩ := hin
        cases hc
        exact hne (Option.some.inj hsource)
      · have hs : NotFrom filePathNew s₃ := hnot fun h => ht h.1.2.2
        obtain ⟨c, hc, hsource, -⟩ := hin
        exact load_notFrom rsa options hs (fun _ _ => hne) c hc hsource
    · rw [load_taken rsa options hr.2.2 hd]
      refine ⟨?_, fun h => ⟨_, rfl, h other rfl⟩⟩
      rintro ⟨c, hc, hcns⟩ other' ho
      cases hc
      cases ho
      exact hcns

end

/-! ## Two runs -/

/-- A client that keeps its files where the names are compiled for. -/
def client : OrOptions where
  cacheDirectory := "/usr/local/BADNET-V3-client/lib".toList

theorem client_readsGSRI : ReadsGSRI client := by decide

/-- GSRI, and unverified-microdesc-consensus or no such file. -/
def twoFiles (gsri : Text) (unverified : Option Text) : Files := fun fname =>
  if fname = filePathNew then some gsri
  else if fname = unverifiedMicrodescConsensus client then unverified
  else none

theorem uploaded_ne_nil (b : UInt8) : uploaded [b] ≠ [] := List.cons_ne_nil _ _

theorem twoFiles_unverified (gsri : Text) (unverified : Option Text) :
    twoFiles gsri unverified (unverifiedMicrodescConsensus client) = unverified := by
  have hne : unverifiedMicrodescConsensus client ≠ filePathNew := cacheFname_ne "/unverified-microdesc".toList
  unfold twoFiles
  rw [if_neg hne, if_pos rfl]

theorem gsri_in_use_alone :
    ∃ ns, networkstatusParseVoteFromString rsa1024 (uploaded [1]) .CONSENSUS = .ok ns ∧
      InUse (routerReloadConsensusNetworkstatus rsa1024 client (twoFiles (uploaded [1]) none) {}) filePathNew ns := by
  obtain ⟨ns, hns, -⟩ := uploaded_accepted [1]
  have hgsri : twoFiles (uploaded [1]) none filePathNew = some (uploaded [1]) := if_pos rfl
  have hnone : documentRead rsa1024 (twoFiles (uploaded [1]) none) (unverifiedMicrodescConsensus client) = none := by
    unfold documentRead torMmapFile
    rw [twoFiles_unverified]
    rfl
  refine ⟨ns, hns, ?_⟩
  exact (gsri_in_use_iff rsa1024 client _ {} _ ns hgsri hns).1.mpr ⟨client_readsGSRI, uploaded_ne_nil 1, hnone⟩

/-- GSRI has relay 1, unverified-microdesc-consensus relay 2: what is in use afterwards is not what GSRI says. -/
theorem an_unverified_consensus_replaces_gsri :
    ∃ ns, networkstatusParseVoteFromString rsa1024 (uploaded [1]) .CONSENSUS = .ok ns ∧
      ∃ c, (routerReloadConsensusNetworkstatus rsa1024 client
        (twoFiles (uploaded [1]) (some (uploaded [2]))) {}).currentMd = some c ∧ c.ns ≠ ns := by
  obtain ⟨ns, hns, hlist⟩ := uploaded_accepted [1]
  obtain ⟨other, hother, hlist'⟩ := uploaded_accepted [2]
  have hread := documentRead_accepted (twoFiles_unverified (uploaded [1]) (some (uploaded [2]))) hother
  rw [if_neg (uploaded_ne_nil 2)] at hread
  refine ⟨ns, hns, ?_⟩
  rw [reload_run, load_taken rsa1024 client client_readsGSRI.2.2 hread]
  refine ⟨_, rfl, ?_⟩
  rintro rfl
  have hstatus : [(relayAt 1).status] = [(relayAt 2).status] := hlist.symm.trans hlist'
  have hdigest := congrArg (·.map (·.identityDigest)) hstatus
  revert hdigest
  decide

end Badnet.Nodelist.Reload
