import Icsw.Foundation.Decimal
import Icsw.Foundation.Dict
import Mathlib.Data.List.Sort
import Mathlib.Data.Prod.Lex
import Mathlib.Data.Sym.Sym2

/-!
# The router object

An update reads the netdevices and the peers, builds the dictionaries of the penalties and a graph,
and feeds what it puts into the graph to a hash..  The routes are the shortest ones of the graph.
-/

namespace Icsw.Topology

open Foundation List

structure Device where
  isMetaDevice : Bool
  enabled : Bool
  groupEnabled : Bool
deriving DecidableEq

/-- A netdevice; its name is ordered as the database orders names. -/
structure Netdevice (Name : Type) where
  idx : Nat
  device : Nat
  devname : Name
  snmpIdx : Int
  enabled : Bool
  penalty : Int
  interDeviceRouting : Bool
deriving DecidableEq

structure PeerInformation where
  sNetdevice : Nat
  dNetdevice : Nat
  penalty : Int
deriving DecidableEq

/-- The rows of the tables in some order. -/
structure Rows (Name : Type) where
  devices : Nat -> Device
  netdevices : List (Netdevice Name)
  peers : List PeerInformation

variable {Name : Type}

/-- `ordering = ("snmp_idx", "devname",)` -/
def Netdevice.orderKey (nd : Netdevice Name) : Int ×ₗ Name := toLex (nd.snmpIdx, nd.devname)

def PeerInformation.pair (peer : PeerInformation) : Nat × Nat := (peer.sNetdevice, peer.dNetdevice)

namespace Rows

variable (rows : Rows Name)

def usable (nd : Netdevice Name) : Bool :=
  !(rows.devices nd.device).isMetaDevice && nd.enabled &&
    ((rows.devices nd.device).enabled && (rows.devices nd.device).groupEnabled)

def allNds : List (Netdevice Name) := rows.netdevices.filter rows.usable

def devDict : Dict Nat (List (Netdevice Name)) :=
  (∅ : Dict Nat (List (Netdevice Name))).update (fun nd => nd.device)
    (fun held nd => held.getD [] ++ [nd]) rows.allNds

def ndLut : Dict Nat Nat :=
  (∅ : Dict Nat Nat).update (fun nd => nd.idx) (fun _ nd => nd.device)
    (rows.netdevices.filter fun nd => nd.enabled && decide (nd.device ∈ rows.devDict))

def ndDict : Dict Nat (Netdevice Name) :=
  (∅ : Dict Nat (Netdevice Name)).update (fun nd => nd.idx) (fun _ nd => nd) rows.allNds

end Rows

structure PeerDicts where
  peerDict : Dict (Nat × Nat) Int
  simplePeerDict : Dict (Nat × Nat) Int

def PeerDicts.empty : PeerDicts where
  peerDict := ∅
  simplePeerDict := ∅

/-- One row of the peer table; the netdevices may be unknown to the look-up table. -/
def addPeer (rows : Rows Name) (dicts : PeerDicts) (peer : PeerInformation) :
    Except PyError PeerDicts :=
  if peer.sNetdevice ∈ rows.ndLut ∧ peer.dNetdevice ∈ rows.ndLut then
    match rows.ndDict.lookup peer.sNetdevice, rows.ndDict.lookup peer.dNetdevice with
    | some source, some dest =>
      let rated := peer.penalty + source.penalty + dest.penalty
      .ok
        { peerDict := (dicts.peerDict.insert (peer.sNetdevice, peer.dNetdevice) rated).insert
            (peer.dNetdevice, peer.sNetdevice) rated
          simplePeerDict :=
            dicts.simplePeerDict.insert (peer.sNetdevice, peer.dNetdevice) peer.penalty }
    | _, _ => .error .keyError
  else .ok dicts

def intPenalty : Int := 1

/-- A link within a device. -/
def addInternal (dicts : PeerDicts) (pair : Nat × Nat) : PeerDicts where
  peerDict := (dicts.peerDict.insert pair intPenalty).insert pair.swap intPenalty
  simplePeerDict := dicts.simplePeerDict.insert pair intPenalty

def laterPairs : List (Netdevice Name) -> List (Nat × Nat)
  | [] => []
  | nd :: rest => rest.map (fun other => (nd.idx, other.idx)) ++ laterPairs rest

def internalPairs (ndList : List (Netdevice Name)) : List (Nat × Nat) :=
  laterPairs (ndList.filter fun nd => nd.interDeviceRouting)

/-- The peer dictionaries; the lists of the devices come as the dictionary has them. -/
def Rows.peerDicts (rows : Rows Name) (ndLists : List (List (Netdevice Name))) :
    Except PyError PeerDicts := do
  let dicts <- rows.peers.foldlM (addPeer rows) PeerDicts.empty
  return ndLists.foldl (fun held ndList => (internalPairs ndList).foldl addInternal held) dicts

@[ext] structure Graph where
  nodes : Finset Nat
  weight : Sym2 Nat -> Option Int

namespace Graph

def empty : Graph where
  nodes := ∅
  weight := fun _ => none

def addNodesFrom (graph : Graph) (nodes : List Nat) : Graph :=
  { graph with nodes := graph.nodes ∪ nodes.toFinset }

/-- A new edge, or the new weight of an old one. -/
def addEdge (graph : Graph) (srcNode dstNode : Nat) (weight : Int) : Graph where
  nodes := insert srcNode (insert dstNode graph.nodes)
  weight := Function.update graph.weight s(srcNode, dstNode) (some weight)

end Graph

/-- What one update reads: the rows as the queries return them, and the orders in which the
dictionaries are gone through. -/
structure Read (Name : Type) where
  rows : Rows Name
  ndLists : List (List (Netdevice Name))
  simplePeers : List ((Nat × Nat) × Int)

def nodeToken (key : Nat) : Text := 'n' :: formatInt key

def edgeToken (edge : (Nat × Nat) × Int) : Text :=
  'e' :: (formatInt edge.1.1 ++ ',' :: (formatInt edge.1.2 ++ ',' :: formatInt edge.2))

/-- The hash is kept as what it has been fed. -/
structure RouterObject (Name : Type) where
  nx : Option Graph
  fp : Text
  previousFp : Text
  ndDict : Dict Nat (Netdevice Name)
  dicts : PeerDicts

namespace RouterObject

/-- The router object before its first update. -/
def initial : RouterObject Name where
  nx := none
  fp := []
  previousFp := []
  ndDict := ∅
  dicts := PeerDicts.empty

/-- `if self.nx`: a graph without nodes is false. -/
def hasNodes (router : RouterObject Name) : Bool :=
  router.nx.any fun graph => decide (graph.nodes ≠ ∅)

def initFingerprint (hexdigest : Text -> Text) (router : RouterObject Name) : RouterObject Name :=
  { router with
    previousFp := if router.hasNodes = true then hexdigest router.fp else "N/A".toList
    nx := some Graph.empty
    fp := [] }

def addNodes (router : RouterObject Name) : RouterObject Name :=
  { router with
    nx := router.nx.map fun graph => graph.addNodesFrom router.ndDict.keys
    fp := router.fp ++
      (router.ndDict.keys.insertionSort fun key other => key ≤ other).flatMap nodeToken }

def addEdge (router : RouterObject Name) (edge : (Nat × Nat) × Int) : RouterObject Name :=
  { router with
    nx := router.nx.map fun graph => graph.addEdge edge.1.1 edge.1.2 edge.2
    fp := router.fp ++ edgeToken edge }

def update (hexdigest : Text -> Text) (router : RouterObject Name) (read : Read Name) :
    Except PyError (RouterObject Name) := do
  let dicts <- read.rows.peerDicts read.ndLists
  let started := { router with ndDict := read.rows.ndDict, dicts := dicts }.initFingerprint hexdigest
  return read.simplePeers.foldl addEdge started.addNodes

def fingerprint (hexdigest : Text -> Text) (router : RouterObject Name) : Text :=
  hexdigest router.fp

def fingerprintChanged (hexdigest : Text -> Text) (router : RouterObject Name) : Bool :=
  decide (router.fingerprint hexdigest ≠ router.previousFp)

end RouterObject

/-!
## Links

An update never raises, and what it puts into the dictionaries is known from the rows: the known
peers, and the internal links of the devices, which come last.
-/

namespace Rows

variable {rows : Rows Name}

theorem mem_devDict {device : Nat} :
    device ∈ rows.devDict <-> exists nd, nd ∈ rows.allNds ∧ nd.device = device := by
  rw [devDict, Dict.mem_update]
  exact or_iff_right (AList.notMem_empty device)

theorem mem_ndDict {idx : Nat} :
    idx ∈ rows.ndDict <-> exists nd, nd ∈ rows.allNds ∧ nd.idx = idx := by
  rw [ndDict, Dict.mem_update]
  exact or_iff_right (AList.notMem_empty idx)

theorem mem_allNds {nd : Netdevice Name} :
    nd ∈ rows.allNds <-> nd ∈ rows.netdevices ∧ rows.usable nd = true :=
  mem_filter

theorem usable_of_device {nd other : Netdevice Name}
    (hother : rows.usable other = true) (hdevice : other.device = nd.device)
    (henabled : nd.enabled = true) : rows.usable nd = true := by
  unfold usable at hother ⊢
  rw [hdevice] at hother
  simp only [Bool.and_eq_true] at hother ⊢
  exact ⟨⟨hother.left.left, henabled⟩, hother.right⟩

theorem mem_ndLut {idx : Nat} : idx ∈ rows.ndLut <-> idx ∈ rows.ndDict := by
  rw [mem_ndDict, ndLut, Dict.mem_update, or_iff_right (AList.notMem_empty idx)]
  constructor
  · rintro ⟨nd, hnd, hidx⟩
    rcases mem_filter.mp hnd with ⟨hrow, hflags⟩
    rw [Bool.and_eq_true, decide_eq_true_iff] at hflags
    rcases mem_devDict.mp hflags.right with ⟨other, hother, hdevice⟩
    have husable := usable_of_device (mem_allNds.mp hother).right hdevice hflags.left
    exact ⟨nd, mem_allNds.mpr ⟨hrow, husable⟩, hidx⟩
  · rintro ⟨nd, hnd, hidx⟩
    have hrow := mem_allNds.mp hnd
    have henabled : nd.enabled = true := by
      have husable := hrow.right
      unfold usable at husable
      simp only [Bool.and_eq_true] at husable
      exact husable.left.right
    refine ⟨nd, mem_filter.mpr ⟨hrow.left, ?_⟩, hidx⟩
    rw [Bool.and_eq_true, decide_eq_true_iff]
    exact ⟨henabled, mem_devDict.mpr ⟨nd, hnd, rfl⟩⟩

def known (rows : Rows Name) (peer : PeerInformation) : Bool :=
  decide (peer.sNetdevice ∈ rows.ndDict ∧ peer.dNetdevice ∈ rows.ndDict)

def penaltyOf (rows : Rows Name) (idx : Nat) : Int :=
  ((rows.ndDict.lookup idx).map Netdevice.penalty).getD 0

def rated (rows : Rows Name) (peer : PeerInformation) : Int :=
  peer.penalty + rows.penaltyOf peer.sNetdevice + rows.penaltyOf peer.dNetdevice

end Rows

/-- A link in both directions. -/
def bothWays (pair : Nat × Nat) (penalty : Int) : List ((Nat × Nat) × Int) :=
  [(pair, penalty), (pair.swap, penalty)]

namespace Rows

theorem addPeer_eq (rows : Rows Name) (dicts : PeerDicts) (peer : PeerInformation) :
    addPeer rows dicts peer = .ok
      (if rows.known peer = true then
        { peerDict := dicts.peerDict.assign (bothWays peer.pair (rows.rated peer))
          simplePeerDict := dicts.simplePeerDict.assign [(peer.pair, peer.penalty)] }
      else dicts) := by
  unfold addPeer known
  by_cases hknown : peer.sNetdevice ∈ rows.ndDict ∧ peer.dNetdevice ∈ rows.ndDict
  · rcases Dict.exists_lookup hknown.left with ⟨source, hsource⟩
    rcases Dict.exists_lookup hknown.right with ⟨dest, hdest⟩
    rw [if_pos ⟨mem_ndLut.mpr hknown.left, mem_ndLut.mpr hknown.right⟩,
      if_pos (decide_eq_true hknown), rated, penaltyOf, penaltyOf, hsource, hdest]
    rfl
  · rw [if_neg fun h => hknown ⟨mem_ndLut.mp h.left, mem_ndLut.mp h.right⟩,
      if_neg fun h => hknown (of_decide_eq_true h)]

theorem foldlM_addPeer (rows : Rows Name) (peers : List PeerInformation) (dicts : PeerDicts) :
    peers.foldlM (addPeer rows) dicts = .ok
      { peerDict := dicts.peerDict.assign
          ((peers.filter rows.known).flatMap fun peer => bothWays peer.pair (rows.rated peer))
        simplePeerDict := dicts.simplePeerDict.assign
          ((peers.filter rows.known).map fun peer => (peer.pair, peer.penalty)) } := by
  induction peers generalizing dicts with
  | nil => rfl
  | cons peer rest ih =>
    rw [foldlM_cons, addPeer_eq]
    show rest.foldlM (addPeer rows) _ = _
    rw [ih]
    by_cases hknown : rows.known peer = true
    · rw [if_pos hknown, filter_cons_of_pos hknown, flatMap_cons, map_cons,
        Dict.assign_append]
      rfl
    · rw [if_neg hknown, filter_cons_of_neg hknown]

theorem foldl_addInternal (pairs : List (Nat × Nat)) (dicts : PeerDicts) :
    pairs.foldl addInternal dicts =
      { peerDict := dicts.peerDict.assign (pairs.flatMap fun pair => bothWays pair intPenalty)
        simplePeerDict := dicts.simplePeerDict.assign (pairs.map fun pair => (pair, intPenalty)) } := by
  induction pairs generalizing dicts with
  | nil => rfl
  | cons pair rest ih =>
    rw [foldl_cons, ih, flatMap_cons, Dict.assign_append]
    rfl

end Rows

namespace Graph

def addEdges (graph : Graph) (edges : List ((Nat × Nat) × Int)) : Graph :=
  edges.foldl (fun held edge => held.addEdge edge.1.1 edge.1.2 edge.2) graph

theorem weight_addEdges (graph : Graph) (edges : List ((Nat × Nat) × Int)) (ends : Sym2 Nat) :
    (graph.addEdges edges).weight ends =
      ((edges.filter fun edge => s(edge.1.1, edge.1.2) = ends).getLast?.map Prod.snd).or
        (graph.weight ends) := by
  induction edges using reverseRecOn with
  | nil => rfl
  | append_singleton edges edge ih =>
    rw [addEdges, foldl_append, filter_append]
    show Function.update (graph.addEdges edges).weight s(edge.1.1, edge.1.2) (some edge.2) ends = _
    by_cases hends : s(edge.1.1, edge.1.2) = ends
    · rw [filter_singleton, decide_eq_true hends, cond_true, getLast?_concat, hends,
        Function.update_self]
      rfl
    · rw [filter_singleton, decide_eq_false hends, cond_false, append_nil,
        Function.update_of_ne (Ne.symm hends), ih]

theorem nodes_addEdges {graph : Graph} {edges : List ((Nat × Nat) × Int)}
    (h : forall edge, edge ∈ edges -> edge.1.1 ∈ graph.nodes ∧ edge.1.2 ∈ graph.nodes) :
    (graph.addEdges edges).nodes = graph.nodes := by
  induction edges using reverseRecOn with
  | nil => rfl
  | append_singleton edges edge ih =>
    have hbefore := ih fun other hother => h other (mem_append_left _ hother)
    have hends := h edge (by simp)
    rw [addEdges, foldl_append]
    show insert edge.1.1 (insert edge.1.2 (graph.addEdges edges).nodes) = _
    rw [hbefore, Finset.insert_eq_of_mem hends.right, Finset.insert_eq_of_mem hends.left]

end Graph

namespace Read

variable (read : Read Name)

def knownPeers : List PeerInformation := read.rows.peers.filter read.rows.known

def internal : List (Nat × Nat) := read.ndLists.flatMap internalPairs

/-- What is assigned in the dictionary of the plain penalties, in this order. -/
def simpleEntries : List ((Nat × Nat) × Int) :=
  (read.knownPeers.map fun peer => (peer.pair, peer.penalty)) ++
    read.internal.map fun pair => (pair, intPenalty)

def ratedEntries : List ((Nat × Nat) × Int) :=
  (read.knownPeers.flatMap fun peer => bothWays peer.pair (read.rows.rated peer)) ++
    read.internal.flatMap fun pair => bothWays pair intPenalty

def dicts : PeerDicts where
  peerDict := (∅ : Dict (Nat × Nat) Int).assign read.ratedEntries
  simplePeerDict := (∅ : Dict (Nat × Nat) Int).assign read.simpleEntries

theorem peerDicts_eq : read.rows.peerDicts read.ndLists = .ok read.dicts := by
  unfold Rows.peerDicts
  rw [Rows.foldlM_addPeer]
  show Except.ok (read.ndLists.foldl _ _) = _
  rw [← foldl_flatMap, Rows.foldl_addInternal]
  unfold dicts ratedEntries simpleEntries
  rw [Dict.assign_append, Dict.assign_append]
  rfl

def sortedKeys : List Nat :=
  read.rows.ndDict.keys.insertionSort fun key other => key ≤ other

def graph : Graph :=
  (Graph.empty.addNodesFrom read.rows.ndDict.keys).addEdges read.simplePeers

def fed : Text :=
  read.sortedKeys.flatMap nodeToken ++ read.simplePeers.flatMap edgeToken

end Read

namespace RouterObject

theorem foldl_addEdge (edges : List ((Nat × Nat) × Int)) (router : RouterObject Name) :
    edges.foldl addEdge router =
      { router with
        nx := router.nx.map fun graph => graph.addEdges edges
        fp := router.fp ++ edges.flatMap edgeToken } := by
  induction edges generalizing router with
  | nil =>
    rw [flatMap_nil, append_nil]
    show router = { router with nx := router.nx.map id }
    rw [Option.map_id, id]
  | cons edge rest ih =>
    rw [foldl_cons, ih]
    unfold addEdge
    rw [Option.map_map, append_assoc, flatMap_cons]
    rfl

theorem update_eq (hexdigest : Text -> Text) (router : RouterObject Name) (read : Read Name) :
    router.update hexdigest read = .ok
      { nx := some read.graph
        fp := read.fed
        previousFp := if router.hasNodes = true then hexdigest router.fp else "N/A".toList
        ndDict := read.rows.ndDict
        dicts := read.dicts } := by
  unfold update
  rw [Read.peerDicts_eq]
  show Except.ok (read.simplePeers.foldl addEdge _) = _
  rw [foldl_addEdge]
  rfl

end RouterObject

end Icsw.Topology
