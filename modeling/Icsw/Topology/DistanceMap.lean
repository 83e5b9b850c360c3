import Icsw.Topology.FingerprintRight
import Icsw.Topology.Routes

/-!
# The distance map

Devices are labelled in rounds with their distance from the monitoring server, and the first device
of a trace that is nearer to it becomes a parent of a host.
-/

namespace Icsw.Topology

open Foundation List

variable {Name : Type}

/-- `networkx.all_neighbors` raises for a node that is not in the graph. -/
def Graph.allNeighbors (graph : Graph) (node : Nat) : Option (List Nat) :=
  if node ∈ graph.nodes then some (graph.nodeList.filter fun other => graph.Link node other)
  else none

/-- The order in which a round goes through its sets. -/
structure SetOrder where
  links : Nat -> List (Nat × Nat) -> List (Nat × Nat)
  perm : forall round nbList, (links round nbList).Perm nbList

namespace DistanceMap

variable (rows : Rows Name)

def dmDict : List Nat :=
  (rows.netdevices.map Netdevice.device).dedup.filter fun dev =>
    (rows.devices dev).enabled && (rows.devices dev).groupEnabled

def ndDict (dev : Nat) : List Nat :=
  (rows.netdevices.filter fun nd => nd.enabled && decide (nd.device = dev)).map Netdevice.idx

def ndLut : Dict Nat Nat :=
  (∅ : Dict Nat Nat).update (fun nd => nd.idx) (fun _ nd => nd.device)
    (rows.netdevices.filter fun nd => nd.enabled && decide (nd.device ∈ dmDict rows))

def srcNds (level : Nat -> Int) : List Nat :=
  ((dmDict rows).filter fun dev => decide (0 ≤ level dev)).flatMap (ndDict rows)

def nbList (graph : Graph) (level : Nat -> Int) : List (Nat × Nat) :=
  (srcNds rows level).flatMap fun srcNd =>
    (((graph.allNeighbors srcNd).getD []).filter fun dstNd => dstNd ∉ srcNds rows level).map
      fun dstNd => (srcNd, dstNd)

/-- The devices of a link, unless one of its ends is not known. -/
def linkDevices (link : Nat × Nat) : Option (Nat × Nat) := do
  let srcDev <- (ndLut rows).lookup link.1
  let dstDev <- (ndLut rows).lookup link.2
  return (srcDev, dstDev)

def raiseLevel (level : Nat -> Int) (devices : Nat × Nat) : Nat -> Int :=
  Function.update level devices.2 (max (level devices.2) (level devices.1 + 1))

/-- One round, and whether the loop has to run again. -/
def dmRun (graph : Graph) (order : SetOrder) (curIter : Nat)
    (level : Nat -> Int) : (Nat -> Int) × Bool :=
  let followed := (order.links curIter (nbList rows graph level)).filterMap (linkDevices rows)
  (followed.foldl raiseLevel level, !followed.isEmpty)

def dmRuns (rows : Rows Name) (graph : Graph) (order : SetOrder) :
    Nat -> Nat -> (Nat -> Int) -> Nat -> Int
  | 0, _, level => level
  | left + 1, curIter, level =>
    let next := dmRun rows graph order curIter level
    if next.2 then dmRuns rows graph order left (curIter + 1) next.1 else next.1

def firstLevel (rootNode dev : Nat) : Int := if dev = rootNode then 0 else -1

/-- The map, and the keys of the devices that are not reached. -/
def buildDistanceMap (graph : Graph) (order : SetOrder) (rootNode : Nat) :
    Dict Nat Int × List Nat :=
  let level := dmRuns rows graph order 128 0 (firstLevel rootNode)
  ((∅ : Dict Nat Int).update (fun dev => dev) (fun _ dev => level dev) (dmDict rows),
    (dmDict rows).filter fun dev => level dev < 0)

/-- A host of the configuration, with the devices of its traces. -/
structure Host (Name : Type) where
  device : Nat
  name : Name
  possibleParents : List (List Nat)

section Parents

variable [DecidableEq Name] (dMap : Dict Nat Int) (allHosts : Dict Nat Name)
  (hostNames : List Name)

/-- The inner loop over a trace, without the host itself.  A device that is not in the distance
map is skipped. -/
def parentOf (name : Name) (hostPk : Nat) : List Nat -> Except PyError (Option Name)
  | [] => .ok none
  | parentIdx :: rest =>
    match dMap.lookup parentIdx with
    | none => parentOf name hostPk rest
    | some distance => do
      let own <- getItem dMap hostPk
      if own > distance then
        let parent <- getItem allHosts parentIdx
        if parent ∈ hostNames ∧ parent ≠ name then return some parent
        else parentOf name hostPk rest
      else return none

/-- The parents that the traces of a host give. -/
def parentList (name : Name) : List (List Nat) -> Except PyError (List Name)
  | [] => .ok []
  | [] :: _ => .error .indexError
  | (hostPk :: trace) :: rest => do
    let found <- parentOf dMap allHosts hostNames name hostPk trace
    let later <- parentList name rest
    return found.elim later fun parent => List.insert parent later

def parents (host : Host Name) : Except PyError (List Name) :=
  parentList dMap allHosts hostNames host.name host.possibleParents

end Parents

variable {rows : Rows Name} {graph : Graph}

/-- An enabled netdevice of a device is linked to one of another device. -/
def Hop (rows : Rows Name) (graph : Graph) (dev other : Nat) : Prop :=
  dev ≠ other ∧ dev ∈ dmDict rows ∧ other ∈ dmDict rows ∧
    exists srcNd dstNd, srcNd ∈ ndDict rows dev ∧ dstNd ∈ ndDict rows other ∧
      srcNd ∈ graph.nodes ∧ dstNd ∈ graph.nodes ∧ graph.Link srcNd dstNd

theorem mem_ndDict {dev idx : Nat} : idx ∈ ndDict rows dev <->
    exists nd, nd ∈ rows.netdevices ∧ nd.enabled = true ∧ nd.device = dev ∧ nd.idx = idx := by
  simp [ndDict, and_assoc]

theorem lookup_ndLut (hnodup : (rows.netdevices.map Netdevice.idx).Nodup) {idx dev : Nat} :
    (ndLut rows).lookup idx = some dev <-> idx ∈ ndDict rows dev ∧ dev ∈ dmDict rows := by
  unfold ndLut
  rw [Dict.lookup_update_assign, filter_filter, Option.map_eq_some_iff, mem_ndDict]
  constructor
  · rintro ⟨nd, hlast, rfl⟩
    rcases mem_filter.mp (mem_of_getLast? hlast) with ⟨hmem, hkept⟩
    simp only [Bool.and_eq_true, decide_eq_true_eq] at hkept
    exact ⟨⟨nd, hmem, hkept.right.left, rfl, hkept.left⟩, hkept.right.right⟩
  · rintro ⟨⟨nd, hmem, henabled, rfl, hidx⟩, hdev⟩
    have hkept : nd ∈ rows.netdevices.filter fun nd => decide (nd.idx = idx) &&
        (nd.enabled && decide (nd.device ∈ dmDict rows)) :=
      mem_filter.mpr ⟨hmem, by simp [hidx, henabled, hdev]⟩
    have hlast := mem_filter.mp (getLast_mem (ne_nil_of_mem hkept))
    simp only [Bool.and_eq_true, decide_eq_true_eq] at hlast
    exact ⟨_, getLast?_eq_some_getLast (ne_nil_of_mem hkept), congrArg Netdevice.device
      (inj_on_of_nodup_map hnodup hlast.left hmem (hlast.right.left.trans hidx.symm))⟩

theorem mem_srcNds {level : Nat -> Int} {idx : Nat} : idx ∈ srcNds rows level <->
    exists dev, dev ∈ dmDict rows ∧ 0 ≤ level dev ∧ idx ∈ ndDict rows dev := by
  simp [srcNds, and_assoc]

theorem mem_nbList {level : Nat -> Int} {link : Nat × Nat} : link ∈ nbList rows graph level <->
    link.1 ∈ srcNds rows level ∧ link.2 ∉ srcNds rows level ∧ link.1 ∈ graph.nodes ∧
      link.2 ∈ graph.nodes ∧ graph.Link link.1 link.2 := by
  rcases link with ⟨srcNd, dstNd⟩
  simp only [nbList, mem_flatMap, mem_map, mem_filter, Graph.allNeighbors, Prod.mk.injEq,
    decide_eq_true_eq]
  constructor
  · rintro ⟨nd, hsrc, other, ⟨hother, hnot⟩, rfl, rfl⟩
    split at hother
    · rename_i hnode
      rcases mem_filter.mp hother with ⟨hlisted, hlink⟩
      exact ⟨hsrc, hnot, hnode, Graph.mem_nodeList.mp hlisted, of_decide_eq_true hlink⟩
    · cases hother
  · rintro ⟨hsrc, hnot, hnode, hother, hlink⟩
    refine ⟨srcNd, hsrc, dstNd, ⟨?_, hnot⟩, rfl, rfl⟩
    rw [if_pos hnode]
    exact mem_filter.mpr ⟨Graph.mem_nodeList.mpr hother, decide_eq_true hlink⟩

/-- The links of a round are hops from devices with a level to devices without one. -/
theorem mem_followed (hnodup : (rows.netdevices.map Netdevice.idx).Nodup) {level : Nat -> Int}
    {srcDev dstDev : Nat} :
    (srcDev, dstDev) ∈ (nbList rows graph level).filterMap (linkDevices rows) <->
      0 ≤ level srcDev ∧ level dstDev < 0 ∧ Hop rows graph srcDev dstDev := by
  have hsource : forall {idx dev}, (ndLut rows).lookup idx = some dev ->
      (idx ∈ srcNds rows level <-> 0 ≤ level dev) := by
    intro idx dev hlookup
    rcases (lookup_ndLut hnodup).mp hlookup with ⟨hidx, hdev⟩
    rw [mem_srcNds]
    constructor
    · rintro ⟨other, hother, hlevel, hsame⟩
      have heq := hlookup.symm.trans ((lookup_ndLut hnodup).mpr ⟨hsame, hother⟩)
      exact Option.some.inj heq ▸ hlevel
    · exact fun hlevel => ⟨dev, hdev, hlevel, hidx⟩
  simp only [mem_filterMap, linkDevices, Option.bind_eq_bind, Option.bind_eq_some_iff, Option.pure_def,
    Option.some.injEq, Prod.mk.injEq]
  constructor
  · rintro ⟨link, hlink, _, hsrc, _, hdst, rfl, rfl⟩
    rcases mem_nbList.mp hlink with ⟨hfrom, hto, hnodes⟩
    have hsrcLevel := (hsource hsrc).mp hfrom
    have hdstLevel := not_le.mp fun h => hto ((hsource hdst).mpr h)
    rcases (lookup_ndLut hnodup).mp hsrc with ⟨hsrcNd, hsrcDev⟩
    rcases (lookup_ndLut hnodup).mp hdst with ⟨hdstNd, hdstDev⟩
    refine ⟨hsrcLevel, hdstLevel, ?_, hsrcDev, hdstDev, link.1, link.2, hsrcNd, hdstNd, hnodes⟩
    rintro rfl
    exact absurd hsrcLevel (not_le.mpr hdstLevel)
  · rintro ⟨hsrcLevel, hdstLevel, _, hsrcDev, hdstDev, srcNd, dstNd, hsrcNd, hdstNd, hnodes⟩
    have hsrc := (lookup_ndLut hnodup).mpr ⟨hsrcNd, hsrcDev⟩
    have hdst := (lookup_ndLut hnodup).mpr ⟨hdstNd, hdstDev⟩
    refine ⟨(srcNd, dstNd), mem_nbList.mpr ⟨(hsource hsrc).mpr hsrcLevel, fun hto => ?_, hnodes⟩,
      _, hsrc, _, hdst, rfl, rfl⟩
    exact absurd ((hsource hdst).mp hto) (not_le.mpr hdstLevel)

/-- Where all links come from one level, their ends get the next one. -/
theorem foldl_raiseLevel {level : Nat -> Int} {last : Nat} {followed : List (Nat × Nat)}
    (h : forall devices, devices ∈ followed -> level devices.1 = last ∧ level devices.2 = -1)
    (dev : Nat) : followed.foldl raiseLevel level dev =
      if dev ∈ followed.map Prod.snd then (last : Int) + 1 else level dev := by
  induction followed using reverseRecOn generalizing dev with
  | nil => rfl
  | append_singleton followed devices ih =>
    have hbefore := ih fun other hother => h other (mem_append_left _ hother)
    rcases h devices (mem_append_right _ mem_cons_self) with ⟨hsrc, hdst⟩
    have hsource : devices.1 ∉ followed.map Prod.snd := by
      intro hmem
      rcases mem_map.mp hmem with ⟨other, hother, heq⟩
      have hnone := (h other (mem_append_left _ hother)).right
      rw [heq, hsrc] at hnone
      omega
    rw [foldl_append, foldl_cons, foldl_nil, raiseLevel, hbefore, hbefore, if_neg hsource, hsrc, hdst,
      map_append, map_singleton]
    by_cases hdev : dev = devices.2
    · rw [hdev, Function.update_self, if_pos (mem_append_right _ mem_cons_self)]
      split <;> omega
    · rw [Function.update_of_ne hdev, hbefore]
      simp only [mem_append, mem_singleton, hdev, or_false]

theorem labelled_dmRun (hnodup : (rows.netdevices.map Netdevice.idx).Nodup) (order : SetOrder)
    {rootNode rounds : Nat} {level : Nat -> Int}
    (h : Labelled (Hop rows graph) rootNode rounds level) (curIter : Nat) :
    Labelled (Hop rows graph) rootNode (rounds + 1) (dmRun rows graph order curIter level).1 := by
  have hmem : forall devices, devices ∈ (order.links curIter (nbList rows graph level)).filterMap
      (linkDevices rows) <->
        0 ≤ level devices.1 ∧ level devices.2 < 0 ∧ Hop rows graph devices.1 devices.2 :=
    fun devices => (((order.perm curIter _).filterMap _).mem_iff).trans (mem_followed hnodup)
  have hlevel := foldl_raiseLevel fun devices hdevices =>
    h.source ((hmem devices).mp hdevices).left ((hmem devices).mp hdevices).right.left
      ((hmem devices).mp hdevices).right.right
  apply h.next
  · intro before stop hbefore hstop hlink
    exact (hlevel stop).trans (if_pos (mem_map.mpr
      ⟨(before, stop), (hmem (before, stop)).mpr ⟨hbefore, hstop, hlink⟩, rfl⟩))
  · intro stop hnone
    refine (hlevel stop).trans (if_neg fun hin => ?_)
    rcases mem_map.mp hin with ⟨devices, hdevices, rfl⟩
    rcases (hmem devices).mp hdevices with ⟨hbefore, hstop, hlink⟩
    exact hnone devices.1 hbefore hstop hlink

/-- The loop may be left when a round has changed nothing. -/
theorem labelled_dmRuns (hnodup : (rows.netdevices.map Netdevice.idx).Nodup) (order : SetOrder)
    {rootNode : Nat} (left : Nat) {rounds : Nat} {level : Nat -> Int}
    (h : Labelled (Hop rows graph) rootNode rounds level) (curIter : Nat) :
    Labelled (Hop rows graph) rootNode (rounds + left)
      (dmRuns rows graph order left curIter level) := by
  induction left generalizing rounds level curIter with
  | zero => exact h
  | succ left ih =>
    have hnext := labelled_dmRun hnodup order h curIter
    unfold dmRuns
    cases hagain : (dmRun rows graph order curIter level).2 with
    | true =>
      rw [Nat.add_comm left, ← Nat.add_assoc]
      simp only [hagain, if_true]
      exact ih hnext (curIter + 1)
    | false =>
      have hsame : (dmRun rows graph order curIter level).1 = level := by
        have hnil := isEmpty_iff.mp ((Bool.not_eq_false' _).mp hagain)
        show foldl raiseLevel level _ = level
        rw [hnil]
        rfl
      simp only [hagain, Bool.false_eq_true, if_false, hsame]
      have hall : forall more, Labelled (Hop rows graph) rootNode (rounds + more) level := by
        intro more
        induction more with
        | zero => exact h
        | succ more hmore => exact hsame ▸ labelled_dmRun hnodup order hmore curIter
      exact hall (left + 1)

theorem lookup_buildDistanceMap (order : SetOrder) (rootNode : Nat) {dev : Nat}
    (h : dev ∈ dmDict rows) : (buildDistanceMap rows graph order rootNode).1.lookup dev =
      some (dmRuns rows graph order 128 0 (firstLevel rootNode) dev) := by
  unfold buildDistanceMap
  rw [Dict.lookup_update_assign, filter_eq, getLast?_replicate, if_neg (count_pos_iff.mpr h).ne']
  rfl

section Parents

variable [DecidableEq Name] {dMap : Dict Nat Int} {allHosts : Dict Nat Name}
  {hostNames : List Name} {name parent : Name}

/-- A configured host other than the named one, with a smaller distance than the device. -/
def Nearer (dMap : Dict Nat Int) (allHosts : Dict Nat Name) (hostNames : List Name)
    (name : Name) (hostPk : Nat) (parent : Name) : Prop :=
  parent ∈ hostNames ∧ parent ≠ name ∧ exists parentIdx distance own,
    allHosts.lookup parentIdx = some parent ∧ dMap.lookup parentIdx = some distance ∧
      dMap.lookup hostPk = some own ∧ distance < own

theorem lookup_of_getItem {V : Type} {held : Dict Nat V} {key : Nat} {value : V}
    (h : getItem held key = .ok value) : held.lookup key = some value := by
  unfold getItem at h
  cases hvalue : held.lookup key with
  | none => simp [hvalue] at h
  | some found => simpa [hvalue] using h

theorem nearer_of_parentOf {hostPk : Nat} {trace : List Nat}
    (h : parentOf dMap allHosts hostNames name hostPk trace = .ok (some parent)) :
    Nearer dMap allHosts hostNames name hostPk parent := by
  induction trace with
  | nil => cases h
  | cons parentIdx rest ih =>
    unfold parentOf at h
    cases hdistance : dMap.lookup parentIdx with
    | none =>
      rw [hdistance] at h
      exact ih h
    | some distance =>
      rw [hdistance] at h
      rcases exists_of_bind h with ⟨own, hown, h⟩
      split at h
      · rename_i hless
        rcases exists_of_bind h with ⟨found, hfound, h⟩
        split at h
        · rename_i hhost
          cases h
          exact ⟨hhost.left, hhost.right, parentIdx, distance, own, lookup_of_getItem hfound, hdistance,
            lookup_of_getItem hown, hless⟩
        · exact ih h
      · cases h

theorem nearer_of_parentList {device : Nat} {traces : List (List Nat)} {found : List Name}
    (hown : forall trace, trace ∈ traces -> trace.head? = some device)
    (h : parentList dMap allHosts hostNames name traces = .ok found) (hmem : parent ∈ found) :
    Nearer dMap allHosts hostNames name device parent := by
  induction traces generalizing found with
  | nil =>
    cases h
    cases hmem
  | cons trace rest ih =>
    cases trace with
    | nil => cases h
    | cons hostPk trace =>
      have hdevice : hostPk = device := Option.some.inj (hown _ mem_cons_self)
      rcases exists_of_bind h with ⟨first, hfirst, h⟩
      rcases exists_of_bind h with ⟨later, hlater, h⟩
      have hrest := fun hmem => ih (fun trace htrace => hown trace (mem_cons_of_mem _ htrace))
        hlater hmem
      cases h
      cases first with
      | none => exact hrest hmem
      | some other =>
        rcases mem_insert_iff.mp hmem with rfl | hmem
        · exact hdevice ▸ nearer_of_parentOf hfirst
        · exact hrest hmem

end Parents

/-- The hosts of a configuration: each is named after its device, whose full name no other device
has, and its traces start with it. -/
structure Hosts (Name : Type) where
  hosts : List (Host Name)
  allHosts : Dict Nat Name
  distinct : forall dev other name, allHosts.lookup dev = some name ->
    allHosts.lookup other = some name -> dev = other
  named : forall host, host ∈ hosts -> allHosts.lookup host.device = some host.name
  own : forall host, host ∈ hosts -> forall trace, trace ∈ host.possibleParents ->
    trace.head? = some host.device

namespace Hosts

variable [DecidableEq Name]

def hostNames (hosts : Hosts Name) : List Name := hosts.hosts.map Host.name

def HasParent (hosts : Hosts Name) (dMap : Dict Nat Int) (child parent : Name) : Prop :=
  exists host found, host ∈ hosts.hosts ∧ host.name = child ∧
    parents dMap hosts.allHosts hosts.hostNames host = .ok found ∧ parent ∈ found

variable {hosts : Hosts Name} {dMap : Dict Nat Int} {name child parent : Name}

theorem nearer_of_hasParent (h : hosts.HasParent dMap child parent) :
    exists dev, hosts.allHosts.lookup dev = some child ∧
      Nearer dMap hosts.allHosts hosts.hostNames child dev parent := by
  rcases h with ⟨host, found, hhost, rfl, hfound, hmem⟩
  exact ⟨host.device, hosts.named host hhost,
    nearer_of_parentList (hosts.own host hhost) hfound hmem⟩

/-- The distances decrease along the parents. -/
theorem distance_lt (h : Relation.TransGen (hosts.HasParent dMap) child parent) :
    exists dev own other distance, hosts.allHosts.lookup dev = some child ∧
      dMap.lookup dev = some own ∧ hosts.allHosts.lookup other = some parent ∧
      dMap.lookup other = some distance ∧ distance < own := by
  induction h with
  | single hparent =>
    rcases nearer_of_hasParent hparent with
      ⟨dev, hdev, _, _, other, distance, own, hother, hdistance, hown, hless⟩
    exact ⟨dev, own, other, distance, hdev, hown, hother, hdistance, hless⟩
  | tail _ hparent ih =>
    rcases ih with ⟨dev, own, middle, between, hdev, hown, hmiddle, hbetween, hless⟩
    rcases nearer_of_hasParent hparent with
      ⟨next, hnext, _, _, other, distance, held, hother, hdistance, hheld, hbelow⟩
    rw [hosts.distinct next middle _ hnext hmiddle, hbetween] at hheld
    exact ⟨dev, own, other, distance, hdev, hown, hother, hdistance,
      (Option.some.inj hheld ▸ hbelow).trans hless⟩

theorem no_circle : ¬ Relation.TransGen (hosts.HasParent dMap) name name := by
  intro hcircle
  rcases distance_lt hcircle with ⟨dev, own, other, distance, hdev, hown, hother, hdistance, hless⟩
  rw [hosts.distinct dev other name hdev hother, hdistance] at hown
  exact absurd (Option.some.inj hown) hless.ne

end Hosts

/-- The map has the distances from the server, and parents are nearer to it. -/
structure FollowsTopology [DecidableEq Name] (rows : Rows Name) (graph : Graph) (rootNode : Nat)
    (dMap : Dict Nat Int) : Prop where
  distances : forall dev count, count ≤ 128 -> Distance (Hop rows graph) rootNode count dev ->
    dMap.lookup dev = some (count : Int)
  unreached : forall dev, dev ∈ dmDict rows ->
    (forall count, ¬ Steps (Hop rows graph) rootNode count dev) -> dMap.lookup dev = some (-1)
  nearer : forall (hosts : Hosts Name) child parent, hosts.HasParent dMap child parent ->
    exists dev, hosts.allHosts.lookup dev = some child ∧
      Nearer dMap hosts.allHosts hosts.hostNames child dev parent
  noCircle : forall (hosts : Hosts Name) name, ¬ Relation.TransGen (hosts.HasParent dMap) name name

theorem parents_follow_topology [DecidableEq Name] (tables : Tables Name) (graph : Graph)
    (order : SetOrder) (rootNode : Nat) (hroot : rootNode ∈ dmDict tables.rows) :
    FollowsTopology tables.rows graph rootNode
      (buildDistanceMap tables.rows graph order rootNode).1 := by
  have hfirst : Labelled (Hop tables.rows graph) rootNode 0 (firstLevel rootNode) := by
    intro dev
    unfold firstLevel
    by_cases hdev : dev = rootNode
    · exact Or.inl ⟨0, le_rfl, ⟨hdev, fun _ _ => Nat.zero_le _⟩, if_pos hdev⟩
    · refine Or.inr ⟨fun count hle => ?_, if_neg hdev⟩
      rw [Nat.le_zero.mp hle]
      exact hdev
  have hlabelled := labelled_dmRuns tables.idx_nodup order 128 hfirst 0
  refine ⟨fun dev count hle hdist => ?_, fun dev hdev hnone => ?_,
    fun _ _ _ => Hosts.nearer_of_hasParent, fun _ _ => Hosts.no_circle⟩
  · have hdev : dev ∈ dmDict tables.rows := by
      cases count with
      | zero => exact (show dev = rootNode from hdist.steps) ▸ hroot
      | succ count =>
        rcases hdist.steps with ⟨before, _, hlink⟩
        exact hlink.right.right.left
    rw [lookup_buildDistanceMap order rootNode hdev, hlabelled.label_eq hdist (by omega)]
  · rw [lookup_buildDistanceMap order rootNode hdev, hlabelled.unreached hnone]

/-- The sets in the order of their keys. -/
def keyOrder : SetOrder where
  links _ nbList := nbList
  perm _ _ := Perm.refl _

theorem sample_follows_topology : FollowsTopology sampleTables.rows sampleRead.read.graph 1
    (buildDistanceMap sampleTables.rows sampleRead.read.graph keyOrder 1).1 :=
  parents_follow_topology sampleTables sampleRead.read.graph keyOrder 1 (by decide)

end DistanceMap

end Icsw.Topology
