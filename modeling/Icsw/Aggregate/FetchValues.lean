import Icsw.Aggregate.Model
import Icsw.Foundation.WalkedList
import Mathlib.Data.List.Chain

/-!
# Fetching the vectors of the hosts

The vectors of the hosts of all groups are fetched from memcached..  For a host that is not there an
earlier vector is taken once; when there is none, the host is removed from the list that the loop
walks.
-/

namespace Icsw.Aggregate

open Foundation List

/-- A group by the uuid and the name of its meta device, with the uuids of its hosts. -/
structure BuildEntry where
  uuid : Text
  sendName : Text
  uuids : List Text

/-- The uuids of all entries but the last one, which is the one of the cluster. -/
def uuidList (buildList : List BuildEntry) : List Text := buildList.dropLast.flatMap BuildEntry.uuids

/-- What the process keeps from call to call. -/
structure FetchState where
  agTls : AGTopLevelStruct
  vectorFilterCache : Dict Text Filtered

/-- What a call works on. -/
structure Fetching extends FetchState where
  uuidList : List Text
  vDict : Dict Text Filtered
  warnCList : List Text
  errorCeList : List Text

def mcKey (uuid : Text) : Text := "cc_hc_".toList ++ uuid

section Fetch

variable (loads : Text -> Except PyError (List VE)) (mc : Text -> Option Text)

/-- The body of the loop. -/
def fetchOne (state : Fetching) (key : Text) : Except PyError Fetching :=
  match mc (mcKey key) with
  | some val => do
      let inList <- loads val
      let (agTls, filtered) <- state.agTls.filter inList
      return { state with
        agTls := agTls
        vDict := state.vDict.insert key filtered
        vectorFilterCache := state.vectorFilterCache.insert key filtered }
  | none =>
    match state.vectorFilterCache.lookup key with
    | some filtered => .ok { state with
        warnCList := state.warnCList ++ [key]
        vDict := state.vDict.insert key filtered
        vectorFilterCache := state.vectorFilterCache.erase key }
    | none => .ok { state with
        errorCeList := state.errorCeList ++ [key]
        uuidList := state.uuidList.erase key }

/-- The loop from an index on.  The list never gets longer, so it has no more steps than uuids. -/
def fetchFrom : Nat -> Nat -> Fetching -> Except PyError Fetching
  | 0, _, state => .ok state
  | steps + 1, index, state =>
    match state.uuidList[index]? with
    | none => .ok state
    | some key => do
        let next <- fetchOne loads mc state key
        fetchFrom steps (index + 1) next

def startFetch (state : FetchState) (buildList : List BuildEntry) : Fetching :=
  { state with uuidList := uuidList buildList, vDict := ∅, warnCList := [], errorCeList := [] }

def fetchValues (state : FetchState) (buildList : List BuildEntry) : Except PyError Fetching :=
  fetchFrom loads mc (uuidList buildList).length 0 (startFetch state buildList)

end Fetch

/-- A call with the content of memcached.  As a build list is made of a set of uuids, each of them
is in it only once. -/
structure FetchCall where
  mc : Text -> Option Text
  buildList : List BuildEntry
  nodup : (uuidList buildList).Nodup

structure FetchRecord where
  before : FetchState
  call : FetchCall
  fetched : Fetching

/-- One call after the other. -/
def fetchCalls (loads : Text -> Except PyError (List VE)) (state : FetchState) :
    List FetchCall -> Except PyError (List FetchRecord)
  | [] => .ok []
  | call :: later => do
      let fetched <- fetchValues loads call.mc state call.buildList
      let records <- fetchCalls loads fetched.toFetchState later
      return ⟨state, call, fetched⟩ :: records

/-- The host is neither in memcached nor in the cache. -/
def missingIn (mc : Text -> Option Text) (cache : Dict Text Filtered) (uuid : Text) : Bool :=
  (mc (mcKey uuid)).isNone && (cache.lookup uuid).isNone

namespace FetchRecord

def NoHostSkipped (record : FetchRecord) : Prop :=
  forall uuid, uuid ∈ uuidList record.call.buildList ->
    (record.call.mc (mcKey uuid)).isSome ∨ (record.before.vectorFilterCache.lookup uuid).isSome ->
      (record.fetched.vDict.lookup uuid).isSome

/-- The host was in memcached and has been fetched from there. -/
def Reports (record : FetchRecord) (uuid : Text) : Prop :=
  (record.call.mc (mcKey uuid)).isSome ∧ (record.fetched.vDict.lookup uuid).isSome

def missing (record : FetchRecord) (uuid : Text) : Bool :=
  missingIn record.call.mc record.before.vectorFilterCache uuid

/-- An even number of hosts is missing before each host that is not. -/
def GapsEven (record : FetchRecord) : Prop :=
  EvenGaps record.missing (uuidList record.call.buildList)

end FetchRecord

/-- A host is served from the cache once in a call, and then only after it has reported again. -/
def ServedOnce (records : List FetchRecord) : Prop :=
  (forall record, record ∈ records -> record.fetched.warnCList.Nodup) ∧
    forall earlier first between second later uuid,
      records = earlier ++ first :: between ++ second :: later ->
        uuid ∈ first.fetched.warnCList -> uuid ∈ second.fetched.warnCList ->
          exists record, record ∈ between ∧ record.Reports uuid

section Steps

variable {loads : Text -> Except PyError (List VE)} {mc : Text -> Option Text}

/-- The host is only in the cache. -/
def servedFrom (mc : Text -> Option Text) (cache : Dict Text Filtered) (uuid : Text) : Bool :=
  (mc (mcKey uuid)).isNone && (cache.lookup uuid).isSome

/-- What a step changes. -/
structure OneFetched (mc : Text -> Option Text) (state next : Fetching) (key : Text) : Prop where
  uuidList : next.uuidList =
    if missingIn mc state.vectorFilterCache key then state.uuidList.erase key else state.uuidList
  warned : next.warnCList = state.warnCList ++
    if servedFrom mc state.vectorFilterCache key then [key] else []
  entry : (next.vDict.lookup key).isSome =
    ((state.vDict.lookup key).isSome || !missingIn mc state.vectorFilterCache key)
  cached : (next.vectorFilterCache.lookup key).isSome = (mc (mcKey key)).isSome
  otherEntry : forall other, other ≠ key -> next.vDict.lookup other = state.vDict.lookup other
  otherCached : forall other, other ≠ key ->
    next.vectorFilterCache.lookup other = state.vectorFilterCache.lookup other

theorem oneFetched {state next : Fetching} {key : Text}
    (h : fetchOne loads mc state key = .ok next) : OneFetched mc state next key := by
  unfold fetchOne at h
  cases hmc : mc (mcKey key) with
  | some val =>
    simp only [hmc] at h
    rcases exists_of_bind h with ⟨inList, _, h⟩
    rcases exists_of_bind h with ⟨⟨agTls, filtered⟩, _, h⟩
    cases h
    constructor
    · simp [missingIn, hmc]
    · simp [servedFrom, hmc]
    · simp [missingIn, hmc]
    · simp [hmc]
    · exact fun other hother => AList.lookup_insert_ne hother
    · exact fun other hother => AList.lookup_insert_ne hother
  | none =>
    cases hcache : state.vectorFilterCache.lookup key with
    | some filtered =>
      simp only [hmc, hcache] at h
      cases h
      constructor
      · simp [missingIn, hcache]
      · simp [servedFrom, hmc, hcache]
      · simp [missingIn, hcache]
      · simp [hmc]
      · exact fun other hother => AList.lookup_insert_ne hother
      · exact fun other hother => AList.lookup_erase_ne hother
    | none =>
      simp only [hmc, hcache] at h
      cases h
      constructor
      · simp [missingIn, hmc, hcache]
      · simp [servedFrom, hcache]
      · simp [missingIn, hmc, hcache]
      · simp [hmc, hcache]
      · exact fun other _ => rfl
      · exact fun other _ => rfl

/-- What the loop changes when it arrives at the keys. -/
structure Walked (mc : Text -> Option Text) (state result : Fetching) (keys : List Text) : Prop where
  warned : result.warnCList =
    state.warnCList ++ keys.filter (servedFrom mc state.vectorFilterCache)
  entries : forall uuid, (result.vDict.lookup uuid).isSome = true <->
    (state.vDict.lookup uuid).isSome = true ∨
      uuid ∈ keys ∧ missingIn mc state.vectorFilterCache uuid = false
  cached : forall uuid, (result.vectorFilterCache.lookup uuid).isSome =
    if uuid ∈ keys then (mc (mcKey uuid)).isSome
    else (state.vectorFilterCache.lookup uuid).isSome

theorem Walked.refl (state : Fetching) : Walked mc state state [] :=
  ⟨(append_nil _).symm, fun _ => by simp, fun _ => by simp⟩

theorem OneFetched.walked {state next result : Fetching} {key : Text} {keys : List Text}
    (h : OneFetched mc state next key) (hkey : key ∉ keys) (hrest : Walked mc next result keys) :
    Walked mc state result (key :: keys) := by
  have hne : forall uuid, uuid ∈ keys -> uuid ≠ key := fun uuid huuid heq => hkey (heq ▸ huuid)
  constructor
  · have hsame : keys.filter (servedFrom mc next.vectorFilterCache) =
        keys.filter (servedFrom mc state.vectorFilterCache) := by
      apply filter_congr
      intro uuid huuid
      unfold servedFrom
      rw [h.otherCached uuid (hne uuid huuid)]
    rw [hrest.warned, h.warned, hsame, filter_cons, append_assoc]
    split <;> rfl
  · intro uuid
    rw [hrest.entries uuid]
    by_cases heq : uuid = key
    · rw [heq, h.entry]
      simp [hkey]
    · unfold missingIn
      rw [h.otherEntry uuid heq, h.otherCached uuid heq]
      simp [heq]
  · intro uuid
    rw [hrest.cached uuid]
    by_cases heq : uuid = key
    · rw [heq, if_neg hkey, if_pos mem_cons_self, h.cached]
    · rw [h.otherCached uuid heq]
      simp [heq]

theorem walked_fetchFrom {steps index : Nat} {state result : Fetching}
    (hsteps : state.uuidList.length ≤ index + steps) (hnodup : (state.uuidList.drop index).Nodup)
    (h : fetchFrom loads mc steps index state = .ok result) :
    Walked mc state result
      (visited (missingIn mc state.vectorFilterCache) (state.uuidList.drop index)) := by
  induction steps generalizing index state with
  | zero =>
    have hend : state.uuidList.drop index = [] := drop_eq_nil_of_le hsteps
    rw [hend]
    cases h
    exact Walked.refl _
  | succ steps ih =>
    unfold fetchFrom at h
    cases hkey : state.uuidList[index]? with
    | none =>
      simp only [hkey] at h
      have hend : state.uuidList.drop index = [] :=
        drop_eq_nil_of_le (getElem?_eq_none_iff.mp hkey)
      rw [hend]
      cases h
      exact Walked.refl _
    | some key =>
      simp only [hkey] at h
      rcases exists_of_bind h with ⟨next, hone, hrest⟩
      have hnext := oneFetched hone
      have hdrop : state.uuidList.drop index = key :: state.uuidList.drop (index + 1) := by
        rcases List.getElem?_eq_some_iff.mp hkey with ⟨hindex, hget⟩
        rw [← hget]
        exact drop_eq_getElem_cons hindex
      rw [hdrop] at hnodup ⊢
      have htail := nodup_cons.mp hnodup
      have hlength : next.uuidList.length ≤ index + 1 + steps := by
        rw [hnext.uuidList]
        split
        · exact length_erase_le.trans (by omega)
        · omega
      have hsame : forall uuid, uuid ∈ state.uuidList.drop (index + 1) ->
          missingIn mc next.vectorFilterCache uuid =
            missingIn mc state.vectorFilterCache uuid := by
        intro uuid huuid
        unfold missingIn
        rw [hnext.otherCached uuid fun heq => htail.left (heq ▸ huuid)]
      cases hmissing : missingIn mc state.vectorFilterCache key with
      | true =>
        have hlist : next.uuidList.drop (index + 1) =
            (state.uuidList.drop (index + 1)).tail := by
          rw [hnext.uuidList, if_pos hmissing, drop_erase hkey, tail_drop]
        have hwalk := ih hlength (hlist ▸ htail.right.tail) hrest
        rw [hlist, visited_congr fun uuid huuid =>
          hsame uuid (mem_of_mem_tail huuid)] at hwalk
        rw [visited_cons_of_failing hmissing]
        exact hnext.walked (fun hmem =>
          htail.left (mem_of_mem_tail ((visited_sublist _).subset hmem))) hwalk
      | false =>
        have hlist : next.uuidList.drop (index + 1) = state.uuidList.drop (index + 1) := by
          rw [hnext.uuidList, if_neg (Bool.eq_false_iff.mp hmissing)]
        have hwalk := ih hlength (hlist ▸ htail.right) hrest
        rw [hlist, visited_congr hsame] at hwalk
        rw [visited_cons_of_not hmissing]
        exact hnext.walked (fun hmem => htail.left ((visited_sublist _).subset hmem)) hwalk

end Steps

section Runs

variable {loads : Text -> Except PyError (List VE)}

def FetchRecord.Ran (loads : Text -> Except PyError (List VE)) (record : FetchRecord) : Prop :=
  fetchValues loads record.call.mc record.before record.call.buildList = .ok record.fetched

variable {record : FetchRecord}

section

variable (h : record.Ran loads)
include h

theorem FetchRecord.Ran.walked :
    Walked record.call.mc (startFetch record.before record.call.buildList) record.fetched
      (visited record.missing (uuidList record.call.buildList)) :=
  @walked_fetchFrom loads record.call.mc _ 0 (startFetch record.before record.call.buildList)
    record.fetched (Nat.le_add_left _ _) record.call.nodup h

theorem noHostSkipped_iff :
    record.NoHostSkipped <-> record.GapsEven := by
  have hentries : forall uuid, (record.fetched.vDict.lookup uuid).isSome = true <->
      uuid ∈ visited record.missing (uuidList record.call.buildList) ∧
        record.missing uuid = false := by
    intro uuid
    rw [h.walked.entries uuid]
    exact or_iff_right (by simp [startFetch])
  have hthere : forall uuid, (record.call.mc (mcKey uuid)).isSome = true ∨
      (record.before.vectorFilterCache.lookup uuid).isSome = true <->
        record.missing uuid = false := by
    intro uuid
    unfold FetchRecord.missing missingIn
    cases record.call.mc (mcKey uuid) <;>
      cases record.before.vectorFilterCache.lookup uuid <;> simp
  unfold FetchRecord.GapsEven
  rw [← all_visited_iff record.call.nodup]
  constructor
  · intro hall uuid huuid hmissing
    exact ((hentries uuid).mp (hall uuid huuid ((hthere uuid).mpr hmissing))).left
  · intro hall uuid huuid hsome
    have hmissing := (hthere uuid).mp hsome
    exact (hentries uuid).mpr ⟨hall uuid huuid hmissing, hmissing⟩

theorem warned_nodup :
    record.fetched.warnCList.Nodup := by
  rw [h.walked.warned]
  exact ((record.call.nodup.sublist (visited_sublist _)).filter _)

theorem cache_of_served {uuid : Text} (hserved : uuid ∈ record.fetched.warnCList) :
    (record.before.vectorFilterCache.lookup uuid).isSome = true ∧
      (record.fetched.vectorFilterCache.lookup uuid).isSome = false := by
  rw [h.walked.warned] at hserved
  have hfilter := mem_filter.mp hserved
  have hfrom := Bool.and_eq_true_iff.mp hfilter.right
  refine ⟨hfrom.right, ?_⟩
  rw [h.walked.cached uuid, if_pos hfilter.left]
  exact Option.isNone_iff_eq_none.mp hfrom.left ▸ rfl

theorem reports_of_cached {uuid : Text}
    (hbefore : (record.before.vectorFilterCache.lookup uuid).isSome = false)
    (hafter : (record.fetched.vectorFilterCache.lookup uuid).isSome = true) :
    record.Reports uuid := by
  rw [h.walked.cached uuid] at hafter
  split at hafter
  · rename_i hvisited
    refine ⟨hafter, (h.walked.entries uuid).mpr (Or.inr ⟨hvisited, ?_⟩)⟩
    unfold missingIn
    rw [Option.isNone_eq_false_iff.mpr hafter]
    rfl
  · exact absurd hafter (Bool.eq_false_iff.mp hbefore)

end

variable {records : List FetchRecord} {calls : List FetchCall} {state : FetchState}

theorem fetchCalls_ran (h : fetchCalls loads state calls = .ok records) :
    (forall record, record ∈ records -> record.Ran loads) ∧
      records.IsChain (fun first second => second.before = first.fetched.toFetchState) ∧
      forall record, record ∈ records.head? -> record.before = state := by
  induction calls generalizing state records with
  | nil =>
    cases h
    exact ⟨fun _ hrecord => absurd hrecord not_mem_nil, IsChain.nil,
      fun _ hrecord => by cases hrecord⟩
  | cons call later ih =>
    rcases exists_of_bind h with ⟨fetched, hfetch, h⟩
    rcases exists_of_bind h with ⟨rest, hrest, h⟩
    cases h
    rcases ih hrest with ⟨hran, hchain, hhead⟩
    refine ⟨forall_mem_cons.mpr ⟨hfetch, hran⟩, ?_, fun record hrecord => ?_⟩
    · exact isChain_cons.mpr ⟨hhead, hchain⟩
    · exact Option.mem_some_iff.mp hrecord ▸ rfl

theorem reports_before {between : List FetchRecord} {second : FetchRecord} {cache : FetchState}
    {uuid : Text} (hran : forall record, record ∈ between -> record.Ran loads)
    (hchain : (between ++ [second]).IsChain
      fun first second => second.before = first.fetched.toFetchState)
    (hhead : forall record, record ∈ (between ++ [second]).head? -> record.before = cache)
    (hbefore : (cache.vectorFilterCache.lookup uuid).isSome = false)
    (hafter : (second.before.vectorFilterCache.lookup uuid).isSome = true) :
    exists record, record ∈ between ∧ record.Reports uuid := by
  induction between generalizing cache with
  | nil =>
    rw [hhead second rfl, hbefore] at hafter
    cases hafter
  | cons record rest ih =>
    have hstate := hhead record rfl
    have hlink := isChain_cons.mp hchain
    rw [← hstate] at hbefore
    cases hcached : (record.fetched.vectorFilterCache.lookup uuid).isSome with
    | true =>
      exact ⟨record, mem_cons_self,
        reports_of_cached (hran record mem_cons_self) hbefore hcached⟩
    | false =>
      rcases ih (fun other hother => hran other (mem_cons_of_mem record hother))
        hlink.right hlink.left hcached with ⟨other, hother, hreports⟩
      exact ⟨other, mem_cons_of_mem record hother, hreports⟩

theorem servedOnce (h : fetchCalls loads state calls = .ok records) : ServedOnce records := by
  rcases fetchCalls_ran h with ⟨hran, hchain, _⟩
  refine ⟨fun record hrecord => warned_nodup (hran record hrecord), ?_⟩
  rintro earlier first between second later uuid rfl hfirst hsecond
  have hfirstRan := hran first (by simp)
  have hsecondRan := hran second (by simp)
  have hsplit : earlier ++ first :: between ++ second :: later =
      earlier ++ (first :: (between ++ [second]) ++ later) := by simp
  rw [hsplit] at hchain
  have htail := (isChain_append.mp hchain).right.left
  have hlink := isChain_cons.mp (isChain_append.mp htail).left
  exact reports_before (fun record hrecord => hran record (by simp [hrecord])) hlink.right hlink.left
    (cache_of_served hfirstRan hfirst).right (cache_of_served hsecondRan hsecond).left

/-- In every sequence of calls, no host is skipped and each is served once from the cache until it
reports, exactly if the gaps are even in every call. -/
theorem noHostSkipped_runs_iff {calls : List FetchCall} {state : FetchState}
    {records : List FetchRecord} (h : fetchCalls loads state calls = .ok records) :
    ((forall record, record ∈ records -> record.NoHostSkipped) ∧ ServedOnce records) <->
      forall record, record ∈ records -> record.GapsEven := by
  have hran := (fetchCalls_ran h).left
  constructor
  · intro hright record hrecord
    exact (noHostSkipped_iff (hran record hrecord)).mp (hright.left record hrecord)
  · intro heven
    exact ⟨fun record hrecord => (noHostSkipped_iff (hran record hrecord)).mpr (heven record hrecord),
      servedOnce h⟩

end Runs

def secondReports : FetchCall where
  mc := fun key => if key = mcKey "b".toList then some [] else none
  buildList := [⟨"group".toList, "METADEV_group".toList, ["a".toList, "b".toList]⟩,
    ⟨"cluster".toList, "METADEV_cluster".toList, ["group".toList]⟩]
  nodup := by decide

def nothingFetched : FetchState := ⟨AGTopLevelStruct.init, ∅⟩

theorem second_reports_iff :
    exists records, fetchCalls (fun _ => .ok []) nothingFetched [secondReports] = .ok records ∧
      (((forall record, record ∈ records -> record.NoHostSkipped) ∧ ServedOnce records) <->
        forall record, record ∈ records -> record.GapsEven) :=
  ⟨_, rfl, @noHostSkipped_runs_iff (fun _ => .ok []) [secondReports] nothingFetched _ rfl⟩

/-- The host after the one that is missing is skipped. -/
theorem second_host_skipped :
    exists records, fetchCalls (fun _ => .ok []) nothingFetched [secondReports] = .ok records ∧
      ¬ forall record, record ∈ records -> record.NoHostSkipped := by
  refine ⟨_, rfl, fun h => ?_⟩
  have hentry := h _ mem_cons_self "b".toList (by decide) (Or.inl (by decide))
  exact absurd hentry (by decide)

/-!
## Hosts and devices

The hosts that report are matched with the devices of the groups by their uuid, else by their full
name, else by their short name.  What was matched once stays matched.
-/

open Foundation

structure AGDeviceGroup where
  uuid : Text
  sendName : Text

/-- A device, with the uuid of its group.  Devices are told apart by their number. -/
structure AGDevice where
  num : Nat
  name : Text
  uuid : Text
  group : Text
deriving DecidableEq

def AGDevice.sName (agd : AGDevice) : Text := firstPart agd.name

structure AGStruct where
  groups : List AGDeviceGroup
  devices : List AGDevice
  sysUuid : Text
  sysSendName : Text
  matchedUuids : List Text
  groupUuids : List Text
  groupNames : Dict Text Text
  lut : Dict Text AGDevice
  uuids : List Text
  fqdns : List Text
  snames : List Text
  probSnames : List Text
  collectdUuid : Dict Nat Text

namespace AGStruct

def init (sysUuid sysSendName : Text) : AGStruct where
  groups := []
  devices := []
  sysUuid := sysUuid
  sysSendName := sysSendName
  matchedUuids := []
  groupUuids := []
  groupNames := ∅
  lut := ∅
  uuids := []
  fqdns := []
  snames := []
  probSnames := []
  collectdUuid := ∅

def addGroup (ags : AGStruct) (agg : AGDeviceGroup) : AGStruct :=
  { ags with
    groups := ags.groups ++ [agg]
    groupUuids := List.insert agg.uuid ags.groupUuids
    groupNames := ags.groupNames.insert agg.uuid agg.sendName }

def addLut (ags : AGStruct) (agd : AGDevice) : AGStruct :=
  { ags with
    devices := ags.devices ++ [agd]
    lut := ((ags.lut.insert agd.name agd).insert agd.uuid agd).insert agd.sName agd
    uuids := List.insert agd.uuid ags.uuids
    fqdns := List.insert agd.name ags.fqdns
    probSnames :=
      if agd.sName ∈ ags.snames then List.insert agd.sName ags.probSnames else ags.probSnames
    snames := List.insert agd.sName ags.snames }

def addDevice (agg : AGDeviceGroup) (ags : AGStruct) (device : Text × Text) : AGStruct :=
  ags.addLut ⟨ags.devices.length, device.1, device.2, agg.uuid⟩

end AGStruct

/-- The hosts by their uuids, with their names. -/
abbrev HostList := Dict Text Text

/-- `h_struct[uuid][1]` -/
def hostName (hStruct : HostList) (uuid : Text) : Text := (hStruct.lookup uuid).getD []

structure SetOrder where
  order : List Text -> List Text
  perm : forall items, (order items).Perm items

namespace AGStruct

/-- The uuids by the names of the hosts, where the last one stays. -/
def byName (name : Text -> Text) (uuids : List Text) : Dict Text Text :=
  (∅ : Dict Text Text).assign (uuids.map fun uuid => (name uuid, uuid))

/-- The hosts by the groups of their devices. -/
def buildList (ags : AGStruct) (set : SetOrder) (validUuids : List Text) :
    Except PyError (List BuildEntry) := do
  let grouped <- validUuids.mapM fun uuid =>
    (getItem ags.lut uuid).map fun device => (device.group, uuid)
  let compDict := (∅ : Dict Text (List Text)).extend Prod.fst (fun row => [row.2]) grouped
  let keys := set.order compDict.keys
  let entries <- keys.mapM fun key => do
    let sendName <- getItem ags.groupNames key
    let uuids <- getItem compDict key
    return BuildEntry.mk key sendName uuids
  if entries = [] then return [] else return entries ++ [⟨ags.sysUuid, ags.sysSendName, keys⟩]

end AGStruct

structure MatchCall where
  set : SetOrder
  hStruct : HostList

structure MatchRecord where
  before : AGStruct
  call : MatchCall
  after : AGStruct
  buildList : List BuildEntry

end Icsw.Aggregate
