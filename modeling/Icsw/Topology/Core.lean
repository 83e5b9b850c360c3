import Icsw.Foundation.LeafStripping
import Icsw.Topology.Routes

/-!
# The core network

To draw the core of the network only, devices are removed in rounds that have a single link, until
there is none any more.
-/

namespace Icsw.Topology

open Foundation List

variable {Name : Type}

namespace Rows

/-- `{pk: device}` of all netdevices -/
def deviceDict (rows : Rows Name) : Dict Nat Nat :=
  (∅ : Dict Nat Nat).update Netdevice.idx (fun _ nd => nd.device) rows.netdevices

def pList (rows : Rows Name) : List (Nat × Nat) :=
  ((rows.peers.filter fun peer => peer.sNetdevice ≠ peer.dNetdevice).flatMap fun peer =>
    [(peer.sNetdevice, peer.dNetdevice), (peer.dNetdevice, peer.sNetdevice)]).dedup

def PeersKnown (rows : Rows Name) : Prop :=
  forall peer, peer ∈ rows.peers ->
    peer.sNetdevice ∈ rows.deviceDict ∧ peer.dNetdevice ∈ rows.deviceDict

end Rows

structure CoreState where
  pList : List (Nat × Nat)
  devPks : List Nat
deriving DecidableEq

/-- `rem_devs`: the devices that are listed once. -/
def remDevs (devList : List Nat) : List Nat := devList.filter fun key => devList.count key = 1

/-- `rem_nds`: the netdevices of some devices. -/
def remNds (ndDict : Dict Nat Nat) (devs : List Nat) : List Nat :=
  (ndDict.items.filter fun item => item.2 ∈ devs).map Prod.fst

/-- One round, and the devices that it removes. -/
def coreRound (ndDict : Dict Nat Nat) (state : CoreState) :
    Except PyError (CoreState × List Nat) := do
  let devList <- state.pList.mapM fun pair => getItem ndDict pair.1
  let devs := remDevs devList
  let nds := remNds ndDict devs
  return (⟨state.pList.filter fun pair => pair.1 ∉ nds ∧ pair.2 ∉ nds,
    state.devPks.filter fun key => key ∉ devs⟩, devs)

def coreLoop (ndDict : Dict Nat Nat) : Nat -> CoreState -> Option (Except PyError CoreState)
  | 0, _ => none
  | rounds + 1, state =>
    match coreRound ndDict state with
    | .error error => some (.error error)
    | .ok (next, devs) => if devs = [] then some (.ok next) else coreLoop ndDict rounds next

def Rows.coreDevices (rows : Rows Name) (rounds : Nat) (devPks : List Nat) :
    Option (Except PyError CoreState) :=
  coreLoop rows.deviceDict rounds ⟨rows.pList, devPks⟩

/-!
## What stays in the core

The loop ends, and what it removes are the devices from which one link leads farther than all
others.  A device that stays has two links to devices that stay exactly if two of its links lead
any distance and not only within the device or to devices that are not selected.
-/

open LeafStripping

def deviceAt (ndDict : Dict Nat Nat) (pair : Nat × Nat) : Option Nat := ndDict.lookup pair.1

namespace Rows

variable (rows : Rows Name)

/-- The link begins at the device and ends at another one. -/
structure Outward (dev : Nat) (pair : Nat × Nat) : Prop where
  mem : pair ∈ rows.pList
  source : rows.deviceDict.lookup pair.1 = some dev
  target : rows.deviceDict.lookup pair.2 ≠ some dev

def EndsIn (devs : List Nat) (pair : Nat × Nat) : Prop :=
  exists dev, dev ∈ devs ∧ rows.deviceDict.lookup pair.2 = some dev

/-- Every device of the list that is linked has two links to devices of the list. -/
def NoStubs (devs : List Nat) : Prop :=
  forall dev, dev ∈ devs -> (exists pair, rows.Outward dev pair) ->
    exists pair other, pair ≠ other ∧ rows.Outward dev pair ∧ rows.Outward dev other ∧
      rows.EndsIn devs pair ∧ rows.EndsIn devs other

/-- The device lies on a circle of links, none of which is taken back. -/
def OnCircle (dev : Nat) : Prop :=
  exists first rest, Circle (deviceAt rows.deviceDict) Prod.swap rows.pList first rest ∧
    rows.deviceDict.lookup first.1 = some dev

/-- Along links one can go on after the pair by that many links, without taking one back. -/
def LeadsOn (more : Nat) (pair : Nat × Nat) : Prop :=
  Leads (deviceAt rows.deviceDict) Prod.swap rows.pList more pair

/-- For some distance, one link of the device and no other leads that far. -/
def OneFarthest (dev : Nat) : Prop :=
  exists more pair, rows.LeadsOn more pair ∧ rows.deviceDict.lookup pair.1 = some dev ∧
    forall other, rows.LeadsOn more other -> rows.deviceDict.lookup other.1 = some dev -> other = pair

/-- Two links of the device lead to other selected devices and on any distance. -/
def TwoEndless (devPks : List Nat) (dev : Nat) : Prop :=
  exists pair other, pair ≠ other ∧ rows.Outward dev pair ∧ rows.Outward dev other ∧
    (rows.EndsIn devPks pair ∧ forall more, rows.LeadsOn more pair) ∧
    (rows.EndsIn devPks other ∧ forall more, rows.LeadsOn more other)

variable {rows : Rows Name} {pair : Nat × Nat}

theorem mem_pList : pair ∈ rows.pList <->
    exists peer, peer ∈ rows.peers ∧ peer.sNetdevice ≠ peer.dNetdevice ∧
      (pair = (peer.sNetdevice, peer.dNetdevice) ∨ pair = (peer.dNetdevice, peer.sNetdevice)) := by
  unfold pList
  rw [mem_dedup, mem_flatMap]
  constructor
  · rintro ⟨peer, hpeer, hpair⟩
    rcases mem_filter.mp hpeer with ⟨hmem, hne⟩
    refine ⟨peer, hmem, of_decide_eq_true hne, ?_⟩
    rcases mem_cons.mp hpair with hfirst | hsecond
    · exact Or.inl hfirst
    · exact Or.inr (mem_singleton.mp hsecond)
  · rintro ⟨peer, hmem, hne, hpair⟩
    refine ⟨peer, mem_filter.mpr ⟨hmem, decide_eq_true hne⟩, ?_⟩
    rcases hpair with hfirst | hsecond
    · exact mem_cons.mpr (Or.inl hfirst)
    · exact mem_cons_of_mem _ (mem_singleton.mpr hsecond)

theorem graph_pList : LeafStripping.Graph Prod.swap rows.pList where
  nodup := nodup_dedup _
  rev_mem := by
    intro pair hpair
    rcases mem_pList.mp hpair with ⟨peer, hmem, hne, heq⟩
    refine mem_pList.mpr ⟨peer, hmem, hne, ?_⟩
    rcases heq with rfl | rfl
    · exact Or.inr rfl
    · exact Or.inl rfl
  rev_rev := Prod.swap_swap
  rev_ne := by
    intro pair hpair heq
    rcases mem_pList.mp hpair with ⟨peer, _, hne, hfirst | hfirst⟩
    · rw [hfirst] at heq
      exact hne (congrArg Prod.snd heq)
    · rw [hfirst] at heq
      exact hne (congrArg Prod.fst heq)

theorem PeersKnown.mem (h : rows.PeersKnown)
    (hpair : pair ∈ rows.pList) : pair.1 ∈ rows.deviceDict ∧ pair.2 ∈ rows.deviceDict := by
  rcases mem_pList.mp hpair with ⟨peer, hmem, _, hfirst | hfirst⟩
  · rw [hfirst]
    exact h peer hmem
  · rw [hfirst]
    exact (h peer hmem).symm

end Rows

variable {ndDict : Dict Nat Nat}

theorem mem_remNds {devs : List Nat} {idx dev : Nat}
    (hdev : ndDict.lookup idx = some dev) : idx ∈ remNds ndDict devs <-> dev ∈ devs := by
  unfold remNds
  rw [mem_map]
  constructor
  · rintro ⟨⟨own, device⟩, hitem, rfl⟩
    rcases mem_filter.mp hitem with ⟨hmem, hin⟩
    have hown := Dict.mem_items.mp hmem
    rw [hdev] at hown
    cases hown
    exact of_decide_eq_true hin
  · intro hin
    exact ⟨(idx, dev), mem_filter.mpr ⟨Dict.mem_items.mpr hdev, decide_eq_true hin⟩, rfl⟩

variable {pList : List (Nat × Nat)}

theorem mem_remDevs {devList : List Nat}
    (h : devList.map some = pList.map (deviceAt ndDict)) (key : Nat) :
    key ∈ remDevs devList <-> IsLeaf (deviceAt ndDict) pList (some key) := by
  have hcount : devList.count key = 1 <-> IsLeaf (deviceAt ndDict) pList (some key) := by
    have hmap : @List.count (Option Nat) instBEqOfDecidableEq (some key) (devList.map some) =
        devList.count key :=
      @count_map_of_injective _ _ _ _ instBEqOfDecidableEq _ devList some
        (Option.some_injective Nat) key
    unfold IsLeaf
    rw [← h, hmap]
  unfold remDevs
  rw [mem_filter, decide_eq_true_iff, ← hcount]
  constructor
  · exact And.right
  · intro hone
    refine ⟨count_pos_iff.mp ?_, hone⟩
    rw [hone]
    exact Nat.one_pos

theorem coreRound_spec {state : CoreState}
    (hknown : forall pair, pair ∈ state.pList -> pair.1 ∈ ndDict ∧ pair.2 ∈ ndDict) :
    exists devs, coreRound ndDict state = .ok
        (⟨strip (deviceAt ndDict) Prod.swap state.pList, state.devPks.filter fun key =>
          ¬ IsLeaf (deviceAt ndDict) state.pList (some key)⟩, devs) ∧
      forall key, key ∈ devs <-> IsLeaf (deviceAt ndDict) state.pList (some key) := by
  have hdevice : forall pair, pair ∈ state.pList ->
      getItem ndDict pair.1 = .ok ((ndDict.lookup pair.1).getD 0) ∧
        some ((ndDict.lookup pair.1).getD 0) = ndDict.lookup pair.1 := by
    intro pair hpair
    rcases Option.isSome_iff_exists.mp (AList.lookup_isSome.mpr (hknown pair hpair).left) with
      ⟨dev, hdev⟩
    unfold getItem
    rw [hdev]
    exact ⟨rfl, rfl⟩
  have hdevList := mapM_eq_ok fun pair hpair => (hdevice pair hpair).left
  generalize hlist : (state.pList.map fun pair => (ndDict.lookup pair.1).getD 0) = devList at hdevList
  have hsome : devList.map some = state.pList.map (deviceAt ndDict) := by
    rw [← hlist, map_map]
    exact map_congr_left fun pair hpair => (hdevice pair hpair).right
  have hrem := mem_remDevs hsome
  refine ⟨remDevs devList, ?_, hrem⟩
  have hnds : forall idx, idx ∈ ndDict -> (idx ∉ remNds ndDict (remDevs devList) <->
      ¬ IsLeaf (deviceAt ndDict) state.pList (ndDict.lookup idx)) := by
    intro idx hidx
    rcases Dict.exists_lookup hidx with ⟨dev, hdev⟩
    rw [mem_remNds hdev, hrem dev, hdev]
  have hpList : (state.pList.filter fun pair => pair.1 ∉ remNds ndDict (remDevs devList) ∧
      pair.2 ∉ remNds ndDict (remDevs devList)) =
      strip (deviceAt ndDict) Prod.swap state.pList := by
    apply filter_congr
    intro pair hpair
    apply decide_eq_decide.mpr
    exact and_congr (hnds pair.1 (hknown pair hpair).left) (hnds pair.2 (hknown pair hpair).right)
  have hdevs : (state.devPks.filter fun key => key ∉ remDevs devList) =
      state.devPks.filter fun key => ¬ IsLeaf (deviceAt ndDict) state.pList (some key) := by
    apply filter_congr
    intro key _
    exact decide_eq_decide.mpr (not_congr (hrem key))
  unfold coreRound
  rw [bind_of_ok hdevList, ← hpList, ← hdevs]
  rfl

def stateAt (ndDict : Dict Nat Nat) (pList : List (Nat × Nat)) (devPks : List Nat) : Nat -> CoreState
  | 0 => ⟨pList, devPks⟩
  | round + 1 =>
    ⟨stripped (deviceAt ndDict) Prod.swap pList (round + 1),
      (stateAt ndDict pList devPks round).devPks.filter fun key =>
        ¬ IsLeaf (deviceAt ndDict) (stripped (deviceAt ndDict) Prod.swap pList round) (some key)⟩

theorem stateAt_pList (ndDict : Dict Nat Nat) (pList : List (Nat × Nat)) (devPks : List Nat)
    (round : Nat) : (stateAt ndDict pList devPks round).pList =
      stripped (deviceAt ndDict) Prod.swap pList round := by
  cases round with
  | zero => rfl
  | succ round => rfl

theorem mem_stateAt {devPks : List Nat}
    {round key : Nat} : key ∈ (stateAt ndDict pList devPks round).devPks <->
      key ∈ devPks ∧ forall before, before < round ->
        ¬ IsLeaf (deviceAt ndDict) (stripped (deviceAt ndDict) Prod.swap pList before) (some key) := by
  induction round with
  | zero =>
    constructor
    · exact fun h => ⟨h, fun before hbefore => absurd hbefore (Nat.not_lt_zero before)⟩
    · exact And.left
  | succ round ih =>
    show key ∈ filter _ _ <-> _
    rw [mem_filter, ih, decide_eq_true_iff]
    constructor
    · rintro ⟨⟨hmem, hstays⟩, hlast⟩
      refine ⟨hmem, fun before hbefore => ?_⟩
      rcases Nat.lt_succ_iff_lt_or_eq.mp hbefore with hless | heq
      · exact hstays before hless
      · rw [heq]
        exact hlast
    · rintro ⟨hmem, hstays⟩
      exact ⟨⟨hmem, fun before hbefore => hstays before (Nat.lt_succ_of_lt hbefore)⟩,
        hstays round (Nat.lt_succ_self round)⟩

theorem mem_of_mem_stripped {round : Nat}
    {pair : Nat × Nat} (h : pair ∈ stripped (deviceAt ndDict) Prod.swap pList round) :
    pair ∈ pList := by
  induction round with
  | zero => exact h
  | succ round ih => exact ih (mem_strip.mp h).left

theorem coreRound_stateAt (hknown : forall pair, pair ∈ pList -> pair.1 ∈ ndDict ∧ pair.2 ∈ ndDict)
    (devPks : List Nat) (round : Nat) : exists devs,
      coreRound ndDict (stateAt ndDict pList devPks round) =
        .ok (stateAt ndDict pList devPks (round + 1), devs) ∧
      forall key, key ∈ devs <->
        IsLeaf (deviceAt ndDict) (stripped (deviceAt ndDict) Prod.swap pList round) (some key) := by
  have hstate : forall pair, pair ∈ (stateAt ndDict pList devPks round).pList ->
      pair.1 ∈ ndDict ∧ pair.2 ∈ ndDict := by
    rw [stateAt_pList]
    exact fun pair hpair => hknown pair (mem_of_mem_stripped hpair)
  have hround := coreRound_spec hstate
  rw [stateAt_pList] at hround
  exact hround

theorem coreLoop_ends (hknown : forall pair, pair ∈ pList -> pair.1 ∈ ndDict ∧ pair.2 ∈ ndDict)
    (devPks : List Nat) {last : Nat} (hlast : forall key, ¬ IsLeaf (deviceAt ndDict)
      (stripped (deviceAt ndDict) Prod.swap pList last) (some key))
    (hbefore : forall round, round < last -> exists key,
      IsLeaf (deviceAt ndDict) (stripped (deviceAt ndDict) Prod.swap pList round) (some key))
    {left rounds : Nat} (hleft : left ≤ last) (hrounds : left < rounds) :
    coreLoop ndDict rounds (stateAt ndDict pList devPks (last - left)) =
      some (.ok (stateAt ndDict pList devPks (last + 1))) := by
  induction left generalizing rounds with
  | zero =>
    cases rounds with
    | zero => omega
    | succ rounds =>
      rcases coreRound_stateAt hknown devPks last with ⟨devs, hround, hmem⟩
      have hnil : devs = [] := by
        rw [eq_nil_iff_forall_not_mem]
        exact fun key hkey => hlast key ((hmem key).mp hkey)
      unfold coreLoop
      rw [Nat.sub_zero, hround]
      exact if_pos hnil
  | succ left ih =>
    cases rounds with
    | zero => omega
    | succ rounds =>
      rcases coreRound_stateAt hknown devPks (last - (left + 1)) with ⟨devs, hround, hmem⟩
      have hnext : last - (left + 1) + 1 = last - left := by omega
      rcases hbefore (last - (left + 1)) (by omega) with ⟨key, hkey⟩
      have hne : devs ≠ [] := ne_nil_of_mem ((hmem key).mpr hkey)
      unfold coreLoop
      rw [hround, hnext]
      show (if devs = [] then _ else _) = _
      rw [if_neg hne]
      exact ih (by omega) (by omega)

/-!
## Stubs in the core

What the loop leaves, by where the links of a device lead.
-/

namespace Rows

theorem coreDevices_ends {rows : Rows Name} (hknown : rows.PeersKnown) (devPks : List Nat) :
    exists last result,
      (forall rounds, last < rounds -> rows.coreDevices rounds devPks = some (.ok result)) ∧
      forall dev, dev ∈ result.devPks <-> dev ∈ devPks ∧
        ¬ Goes (deviceAt rows.deviceDict) Prod.swap rows.pList (some dev) := by
  have hgraph := rows.graph_pList
  have hmem : forall pair, pair ∈ rows.pList ->
      pair.1 ∈ rows.deviceDict ∧ pair.2 ∈ rows.deviceDict := fun pair hpair => hknown.mem hpair
  have hnone : forall round, ¬ IsLeaf (deviceAt rows.deviceDict)
      (stripped (deviceAt rows.deviceDict) Prod.swap rows.pList round) none := by
    intro round hleaf
    rcases (isLeaf_iff _ (graph_stripped hgraph round).nodup none).mp hleaf with
      ⟨pair, hpair, hsource, _⟩
    exact AList.lookup_eq_none.mp hsource (hmem pair (mem_of_mem_stripped hpair)).left
  have hround : exists last,
      (forall v, ¬ IsLeaf (deviceAt rows.deviceDict)
        (stripped (deviceAt rows.deviceDict) Prod.swap rows.pList last) v) ∧
      forall round, round < last -> exists v, IsLeaf (deviceAt rows.deviceDict)
        (stripped (deviceAt rows.deviceDict) Prod.swap rows.pList round) v :=
    exists_last_round hgraph
  rcases hround with ⟨last, hlast, hbefore⟩
  have hbefore' : forall round, round < last -> exists key,
      IsLeaf (deviceAt rows.deviceDict)
        (stripped (deviceAt rows.deviceDict) Prod.swap rows.pList round) (some key) := by
    intro round hround
    rcases hbefore round hround with ⟨v, hv⟩
    cases v with
    | none => exact absurd hv (hnone round)
    | some key => exact ⟨key, hv⟩
  refine ⟨last, stateAt rows.deviceDict rows.pList devPks (last + 1), fun rounds hrounds => ?_,
    fun dev => ?_⟩
  · have hends := coreLoop_ends hmem devPks (fun key => hlast (some key)) hbefore'
      (Nat.le_refl last) hrounds
    rw [Nat.sub_self] at hends
    exact hends
  · rw [mem_stateAt, goes_iff_before hlast (some dev)]
    apply and_congr_right
    intro _
    constructor
    · rintro hstays ⟨round, hround, hleaf⟩
      exact hstays round (Nat.lt_succ_of_lt hround) hleaf
    · intro hstays before hbefore hleaf
      rcases Nat.lt_succ_iff_lt_or_eq.mp hbefore with hless | heq
      · exact hstays ⟨before, hless, hleaf⟩
      · rw [heq] at hleaf
        exact hlast (some dev) hleaf

theorem goes_iff_oneFarthest (rows : Rows Name) (dev : Nat) :
    Goes (deviceAt rows.deviceDict) Prod.swap rows.pList (some dev) <-> rows.OneFarthest dev :=
  goes_iff rows.graph_pList (some dev)

/-- At a device that stays, a link ends at a selected device that stays exactly if it ends at a
selected one and leads any distance. -/
theorem endsIn_iff {rows : Rows Name} {devPks result : List Nat}
    (hresult : forall dev, dev ∈ result <-> dev ∈ devPks ∧
      ¬ Goes (deviceAt rows.deviceDict) Prod.swap rows.pList (some dev))
    {dev : Nat} (hdev : dev ∈ result) {pair : Nat × Nat} (hpair : rows.Outward dev pair) :
    rows.EndsIn result pair <->
      rows.EndsIn devPks pair ∧ forall more, rows.LeadsOn more pair := by
  have hstays : ¬ Goes (deviceAt rows.deviceDict) Prod.swap rows.pList
      (deviceAt rows.deviceDict pair) := by
    unfold deviceAt
    rw [hpair.source]
    exact ((hresult dev).mp hdev).right
  have htarget := target_stays_iff rows.graph_pList hpair.mem hstays
  constructor
  · rintro ⟨other, hother, hlookup⟩
    rcases (hresult other).mp hother with ⟨hselected, hleft⟩
    refine ⟨⟨other, hselected, hlookup⟩, htarget.mp ?_⟩
    show ¬ Goes _ _ _ (rows.deviceDict.lookup pair.2)
    rw [hlookup]
    exact hleft
  · rintro ⟨⟨other, hselected, hlookup⟩, hleads⟩
    have hleft : ¬ Goes (deviceAt rows.deviceDict) Prod.swap rows.pList
        (rows.deviceDict.lookup pair.2) := htarget.mpr hleads
    rw [hlookup] at hleft
    exact ⟨other, (hresult other).mpr ⟨hselected, hleft⟩, hlookup⟩

/-- The loop ends and leaves the devices on circles, and it leaves no stubs exactly if each
selected device that is linked has one farthest link or two that lead any distance to other
selected devices. -/
theorem core_loop_iff {rows : Rows Name} (hknown : rows.PeersKnown) (devPks : List Nat) :
    exists last result,
      (forall rounds, last < rounds -> rows.coreDevices rounds devPks = some (.ok result)) ∧
      (forall dev, dev ∈ devPks -> rows.OnCircle dev -> dev ∈ result.devPks) ∧
      (rows.NoStubs result.devPks <->
        forall dev, dev ∈ devPks -> (exists pair, rows.Outward dev pair) ->
          rows.OneFarthest dev ∨ rows.TwoEndless devPks dev) := by
  rcases coreDevices_ends hknown devPks with ⟨last, result, hends, hresult⟩
  refine ⟨last, result, hends, ?_, ?_⟩
  · rintro dev hdev ⟨first, rest, hcircle, hfirst⟩
    have hstays := hcircle.stays rows.graph_pList
    unfold deviceAt at hstays
    rw [hfirst] at hstays
    exact (hresult dev).mpr ⟨hdev, hstays⟩
  constructor
  · intro hstubs dev hdev hlinked
    by_cases hgoes : Goes (deviceAt rows.deviceDict) Prod.swap rows.pList (some dev)
    · exact Or.inl ((rows.goes_iff_oneFarthest dev).mp hgoes)
    · have hin := (hresult dev).mpr ⟨hdev, hgoes⟩
      rcases hstubs dev hin hlinked with ⟨pair, other, hne, hpair, hother, hends, hends'⟩
      exact Or.inr ⟨pair, other, hne, hpair, hother, (endsIn_iff hresult hin hpair).mp hends,
        (endsIn_iff hresult hin hother).mp hends'⟩
  · intro h dev hin hlinked
    rcases (hresult dev).mp hin with ⟨hdev, hstays⟩
    rcases h dev hdev hlinked with hfarthest | ⟨pair, other, hne, hpair, hother, hends, hends'⟩
    · exact absurd ((rows.goes_iff_oneFarthest dev).mpr hfarthest) hstays
    · exact ⟨pair, other, hne, hpair, hother, (endsIn_iff hresult hin hpair).mpr hends,
        (endsIn_iff hresult hin hother).mpr hends'⟩

end Rows

def netdeviceOn (device idx : Nat) : Netdevice Text where
  idx := idx
  device := device
  devname := "eth0".toList
  snmpIdx := 0
  enabled := true
  penalty := 1
  interDeviceRouting := false

/-- Two devices that are linked, the first one also with itself if there are internal links. -/
def twoDevices (internal : List PeerInformation) : Rows Text where
  devices := fun _ => ⟨false, true, true⟩
  netdevices := [netdeviceOn 1 10, netdeviceOn 1 11, netdeviceOn 2 20]
  peers := ⟨10, 20, 1⟩ :: internal

theorem two_devices_leave_no_stub : exists last result,
    (forall rounds, last < rounds -> (twoDevices []).coreDevices rounds [1, 2] = some (.ok result)) ∧
      (twoDevices []).NoStubs result.devPks := by
  have hknown : (twoDevices []).PeersKnown := by
    unfold Rows.PeersKnown
    decide
  have hlinks : (twoDevices []).pList = [(10, 20), (20, 10)] := by
    decide
  have honly : forall pair, pair ∈ (twoDevices []).pList ->
      forall other, other ∈ (twoDevices []).pList -> (twoDevices []).deviceDict.lookup other.1 = (twoDevices []).deviceDict.lookup pair.1 ->
      other = pair := by
    rw [hlinks]
    decide
  rcases Rows.core_loop_iff hknown [1, 2] with ⟨last, result, hends, _, hiff⟩
  refine ⟨last, result, hends, hiff.mpr ?_⟩
  rintro dev _ ⟨pair, hpair⟩
  exact Or.inl ⟨0, pair, hpair.mem, hpair.source, fun other hother hsource =>
    honly pair hpair.mem other (leads_mem hother) (hsource.trans hpair.source.symm)⟩

/-- A link between two netdevices of one device counts twice for it, so the device stays when its
only neighbour has been removed. -/
theorem internal_link_leaves_stub : exists result,
    (twoDevices [⟨10, 11, 1⟩]).coreDevices 2 [1, 2] = some (.ok result) ∧
      ¬ (twoDevices [⟨10, 11, 1⟩]).NoStubs result.devPks := by
  have hlookup : (twoDevices [⟨10, 11, 1⟩]).deviceDict.lookup 10 = some 1 ∧
      (twoDevices [⟨10, 11, 1⟩]).deviceDict.lookup 20 = some 2 := by
    decide
  have hmem : (10, 20) ∈ (twoDevices [⟨10, 11, 1⟩]).pList := by
    decide
  refine ⟨⟨[(10, 11), (11, 10)], [1]⟩, by decide +kernel, ?_⟩
  intro hstubs
  have hlinked : (twoDevices [⟨10, 11, 1⟩]).Outward 1 (10, 20) := {
    mem := hmem
    source := hlookup.left
    target := by
      rw [hlookup.right]
      decide }
  rcases hstubs 1 (mem_singleton_self 1) ⟨_, hlinked⟩ with ⟨pair, _, _, hpair, _, hends, _⟩
  rcases hends with ⟨dev, hdev, htarget⟩
  rw [mem_singleton.mp hdev] at htarget
  exact hpair.target htarget

end Icsw.Topology
