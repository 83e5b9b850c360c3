import Icsw.Topology.RouterObject

/-!
# Contents of the tables

One content of the tables can be read in many ways: the rows come in the order of the queries, as
far as these have one..  The links of a content are what such a read can put into its graph.
-/

namespace Icsw.Topology

open Foundation List

variable {Name : Type}

structure SameRows (rows other : Rows Name) : Prop where
  devices : rows.devices = other.devices
  netdevices : rows.netdevices.Perm other.netdevices
  peers : rows.peers.Perm other.peers

/-- The keys are unique, and the names on each device. -/
structure Tables (Name : Type) where
  rows : Rows Name
  idx_nodup : (rows.netdevices.map Netdevice.idx).Nodup
  devname_inj : forall nd other, nd ∈ rows.netdevices -> other ∈ rows.netdevices ->
    nd.device = other.device -> nd.devname = other.devname -> nd = other

variable [LinearOrder Name]

/-- One way in which an update can read the tables. -/
structure TableRead (tables : Tables Name) where
  read : Read Name
  sameRows : SameRows read.rows tables.rows
  ordered : read.rows.netdevices.Pairwise fun nd later => nd.orderKey ≤ later.orderKey
  ndLists : read.ndLists.Perm read.rows.devDict.values
  simplePeers : forall dicts, read.rows.peerDicts read.ndLists = .ok dicts ->
    read.simplePeers.Perm dicts.simplePeerDict.items

namespace Rows

variable {rows other : Rows Name}

omit [LinearOrder Name] in
theorem mem_allNds_congr (h : SameRows rows other) {nd : Netdevice Name} :
    nd ∈ rows.allNds <-> nd ∈ other.allNds := by
  have husable : rows.usable nd = other.usable nd := by
    unfold usable
    rw [h.devices]
  rw [mem_allNds, mem_allNds, h.netdevices.mem_iff, husable]

omit [LinearOrder Name] in
theorem mem_ndDict_congr (h : SameRows rows other) {idx : Nat} :
    idx ∈ rows.ndDict <-> idx ∈ other.ndDict := by
  rw [mem_ndDict, mem_ndDict]
  simp only [mem_allNds_congr h]

omit [LinearOrder Name] in
theorem known_congr (h : SameRows rows other) (peer : PeerInformation) :
    rows.known peer = other.known peer := by
  unfold known
  simp only [mem_ndDict_congr h]

/-- Two routing netdevices of a device, in the order of the query. -/
def InternalPair (rows : Rows Name) (pair : Nat × Nat) : Prop :=
  exists nd other, nd ∈ rows.allNds ∧ other ∈ rows.allNds ∧ nd.device = other.device ∧
    nd.interDeviceRouting = true ∧ other.interDeviceRouting = true ∧
    nd.orderKey < other.orderKey ∧ (nd.idx, other.idx) = pair

theorem internalPair_congr (h : SameRows rows other) {pair : Nat × Nat} :
    rows.InternalPair pair <-> other.InternalPair pair := by
  unfold InternalPair
  simp only [mem_allNds_congr h]

def Link (rows : Rows Name) (link : (Nat × Nat) × Int) : Prop :=
  (rows.InternalPair link.1 ∧ link.2 = intPenalty) ∨
    (¬ rows.InternalPair link.1 ∧ exists peer, peer ∈ rows.peers ∧ rows.known peer = true ∧
      (peer.pair, peer.penalty) = link)

variable {link : (Nat × Nat) × Int}

theorem link_congr (h : SameRows rows other) :
    rows.Link link <-> other.Link link := by
  unfold Link
  simp only [internalPair_congr h, h.peers.mem_iff, known_congr h]

theorem known_of_link {rows : Rows Name} (h : rows.Link link) :
    link.1.1 ∈ rows.ndDict ∧ link.1.2 ∈ rows.ndDict := by
  rcases h with ⟨⟨nd, other, hnd, hother, _, _, _, _, hpair⟩, _⟩ | ⟨_, peer, _, hknown, rfl⟩
  · rw [← hpair]
    exact ⟨mem_ndDict.mpr ⟨nd, hnd, rfl⟩, mem_ndDict.mpr ⟨other, hother, rfl⟩⟩
  · exact of_decide_eq_true hknown

end Rows

variable {nds : List (Netdevice Name)}

omit [LinearOrder Name] in
theorem mem_laterPairs {pair : Nat × Nat} :
    pair ∈ laterPairs nds <->
      exists nd other, [nd, other].Sublist nds ∧ (nd.idx, other.idx) = pair := by
  induction nds with
  | nil =>
    refine iff_of_false not_mem_nil ?_
    rintro ⟨nd, other, hsublist, _⟩
    cases eq_nil_of_sublist_nil hsublist
  | cons first rest ih =>
    unfold laterPairs
    rw [mem_append, mem_map, ih]
    constructor
    · rintro (⟨other, hother, heq⟩ | ⟨nd, other, hsublist, heq⟩)
      · exact ⟨first, other, (singleton_sublist.mpr hother).cons_cons first, heq⟩
      · exact ⟨nd, other, hsublist.cons first, heq⟩
    · rintro ⟨nd, other, hsublist, heq⟩
      rcases cons_sublist_cons'.mp hsublist with hrest | ⟨hfirst, hother⟩
      · exact Or.inr ⟨nd, other, hrest, heq⟩
      · subst hfirst
        exact Or.inl ⟨other, singleton_sublist.mp hother, heq⟩

theorem pair_sublist (hordered : nds.Pairwise fun nd later => nd.orderKey ≤ later.orderKey)
    {nd other : Netdevice Name} (hnd : nd ∈ nds) (hother : other ∈ nds)
    (hlt : nd.orderKey < other.orderKey) : [nd, other].Sublist nds := by
  induction nds with
  | nil => cases hnd
  | cons first rest ih =>
    rcases pairwise_cons.mp hordered with ⟨hfirst, hrest⟩
    rcases mem_cons.mp hnd with rfl | hlater
    · rcases mem_cons.mp hother with rfl | hafter
      · exact absurd hlt (lt_irrefl _)
      · exact (singleton_sublist.mpr hafter).cons_cons nd
    · rcases mem_cons.mp hother with rfl | hafter
      · exact absurd (hfirst nd hlater) (not_le_of_gt hlt)
      · exact (ih hrest hlater hafter).cons first

namespace TableRead

variable {tables : Tables Name}

theorem mem_ndLists (read : TableRead tables) :
    nds ∈ read.read.ndLists <-> exists nd, nd ∈ read.read.rows.allNds ∧
      nds = read.read.rows.allNds.filter fun other => other.device = nd.device := by
  rw [read.ndLists.mem_iff, Dict.mem_values]
  unfold Rows.devDict
  simp only [Dict.lookup_update_file]
  constructor
  · rintro ⟨device, hdevice⟩
    split_ifs at hdevice with hnil
    rcases exists_mem_of_ne_nil _ hnil with ⟨nd, hnd⟩
    rcases mem_filter.mp hnd with ⟨hrow, hkey⟩
    injection hdevice with hnds
    refine ⟨nd, hrow, ?_⟩
    rw [of_decide_eq_true hkey]
    exact hnds.symm
  · rintro ⟨nd, hnd, hnds⟩
    have hfiled : nd ∈ read.read.rows.allNds.filter fun other => other.device = nd.device :=
      mem_filter.mpr ⟨hnd, decide_eq_true rfl⟩
    exact ⟨nd.device, by rw [if_neg (ne_nil_of_mem hfiled), hnds]⟩

theorem orderKey_lt (read : TableRead tables) {nd other : Netdevice Name}
    (hdevice : nd.device = other.device) (h : [nd, other].Sublist read.read.rows.netdevices) :
    nd.orderKey < other.orderKey := by
  have hnodup : read.read.rows.netdevices.Nodup :=
    read.sameRows.netdevices.nodup_iff.mpr (Nodup.of_map _ tables.idx_nodup)
  have hne : nd ≠ other := by
    have hpair := hnodup.sublist h
    rw [nodup_cons, mem_singleton] at hpair
    exact hpair.left
  have hle := rel_of_pairwise_cons (read.ordered.sublist h) (mem_singleton.mpr rfl)
  apply lt_of_le_of_ne hle
  intro hkey
  have hname : nd.devname = other.devname := (Prod.mk.inj (toLex.injective hkey)).right
  have hmem : forall row, row ∈ [nd, other] -> row ∈ tables.rows.netdevices := fun row hrow =>
    read.sameRows.netdevices.mem_iff.mp (h.mem hrow)
  exact hne (tables.devname_inj nd other (hmem nd (by simp)) (hmem other (by simp)) hdevice hname)

theorem mem_internal (read : TableRead tables) {pair : Nat × Nat} :
    pair ∈ read.read.internal <-> read.read.rows.InternalPair pair := by
  unfold Read.internal
  rw [mem_flatMap]
  constructor
  · rintro ⟨nds, hnds, hpair⟩
    rcases read.mem_ndLists.mp hnds with ⟨row, hrow, rfl⟩
    unfold internalPairs at hpair
    rcases mem_laterPairs.mp hpair with ⟨nd, other, hsublist, heq⟩
    have hin : forall item, item ∈ [nd, other] -> (item ∈ read.read.rows.allNds ∧
        item.device = row.device) ∧ item.interDeviceRouting = true := by
      intro item hitem
      have hmem := mem_filter.mp (hsublist.mem hitem)
      have hfiled := mem_filter.mp hmem.left
      exact ⟨⟨hfiled.left, of_decide_eq_true hfiled.right⟩, hmem.right⟩
    have hnd := hin nd (by simp)
    have hother := hin other (by simp)
    have hdevice := hnd.left.right.trans hother.left.right.symm
    have hrows : [nd, other].Sublist read.read.rows.netdevices :=
      hsublist.trans (filter_sublist.trans (filter_sublist.trans filter_sublist))
    exact ⟨nd, other, hnd.left.left, hother.left.left, hdevice, hnd.right, hother.right,
      read.orderKey_lt hdevice hrows, heq⟩
  · rintro ⟨nd, other, hnd, hother, hdevice, hrouting, hrouting', hlt, heq⟩
    refine ⟨_, read.mem_ndLists.mpr ⟨nd, hnd, rfl⟩, ?_⟩
    unfold internalPairs
    have hfiled : forall item, item ∈ read.read.rows.allNds -> item.device = nd.device ->
        item.interDeviceRouting = true -> item ∈ ((read.read.rows.allNds.filter
          fun row => row.device = nd.device).filter fun row => row.interDeviceRouting) :=
      fun item hitem hsame hflag => mem_filter.mpr
        ⟨mem_filter.mpr ⟨hitem, decide_eq_true hsame⟩, hflag⟩
    have hordered := ((read.ordered.filter read.read.rows.usable).filter
      fun row => row.device = nd.device).filter fun row => row.interDeviceRouting
    exact mem_laterPairs.mpr ⟨nd, other, pair_sublist hordered (hfiled nd hnd rfl hrouting)
      (hfiled other hother hdevice.symm hrouting') hlt, heq⟩

end TableRead

namespace Read

omit [LinearOrder Name]

theorem lookup_internal {read : Read Name} {pair : Nat × Nat} (h : pair ∈ read.internal) :
    read.dicts.simplePeerDict.lookup pair = some intPenalty := by
  have hentry : (pair, intPenalty) ∈
      (read.internal.map fun item => (item, intPenalty)).filter fun entry => entry.1 = pair :=
    mem_filter.mpr ⟨mem_map.mpr ⟨pair, h, rfl⟩, decide_eq_true rfl⟩
  rcases Option.isSome_iff_exists.mp
    (getLast?_isSome.mpr (ne_nil_of_mem hentry)) with ⟨last, hlast⟩
  have hmem := (mem_filter.mp (mem_of_getLast? hlast)).left
  rcases mem_map.mp hmem with ⟨item, _, rfl⟩
  unfold dicts simpleEntries
  rw [Dict.lookup_assign, filter_append, getLast?_append, hlast]
  rfl

theorem lookup_not_internal {read : Read Name} {pair : Nat × Nat} (h : pair ∉ read.internal) :
    read.dicts.simplePeerDict.lookup pair =
      (read.knownPeers.filter fun peer => peer.pair = pair).getLast?.map
        PeerInformation.penalty := by
  have hnil : ((read.internal.map fun item => (item, intPenalty)).filter
      fun entry => entry.1 = pair) = [] := by
    apply filter_eq_nil_iff.mpr
    intro entry hentry heq
    rcases mem_map.mp hentry with ⟨item, hitem, rfl⟩
    exact h (of_decide_eq_true heq ▸ hitem)
  unfold dicts simpleEntries
  rw [Dict.lookup_assign, filter_append, hnil, append_nil, filter_map,
    getLast?_map, Option.map_map]
  rfl

end Read

namespace TableRead

variable {tables : Tables Name}

section

variable (read : TableRead tables)
include read

theorem mem_simplePeers {pair : Nat × Nat} {penalty : Int} :
    (pair, penalty) ∈ read.read.simplePeers <->
      read.read.dicts.simplePeerDict.lookup pair = some penalty := by
  rw [(read.simplePeers _ read.read.peerDicts_eq).mem_iff, Dict.mem_items]

theorem nodup_simplePeers :
    (read.read.simplePeers.map Prod.fst).Nodup := by
  rw [((read.simplePeers _ read.read.peerDicts_eq).map Prod.fst).nodup_iff, Dict.map_fst_items]
  exact AList.keys_nodup _

theorem link_of_mem {link : (Nat × Nat) × Int}
    (h : link ∈ read.read.simplePeers) : tables.rows.Link link := by
  rw [← Rows.link_congr read.sameRows]
  have hlookup := read.mem_simplePeers.mp h
  by_cases hinternal : link.1 ∈ read.read.internal
  · rw [Read.lookup_internal hinternal] at hlookup
    injection hlookup with hpenalty
    exact Or.inl ⟨read.mem_internal.mp hinternal, hpenalty.symm⟩
  · rw [Read.lookup_not_internal hinternal] at hlookup
    rcases Option.map_eq_some_iff.mp hlookup with ⟨peer, hlast, hpenalty⟩
    rcases mem_filter.mp (mem_of_getLast? hlast) with ⟨hmem, hpair⟩
    rcases mem_filter.mp hmem with ⟨hrow, hknown⟩
    exact Or.inr ⟨fun hin => hinternal (read.mem_internal.mpr hin), peer, hrow, hknown,
      Prod.ext (of_decide_eq_true hpair) hpenalty⟩

theorem mem_of_link {link : (Nat × Nat) × Int}
    (h : tables.rows.Link link) : exists penalty, (link.1, penalty) ∈ read.read.simplePeers := by
  rw [← Rows.link_congr read.sameRows] at h
  simp only [read.mem_simplePeers]
  rcases h with ⟨hinternal, _⟩ | ⟨hinternal, peer, hrow, hknown, rfl⟩
  · exact ⟨_, Read.lookup_internal (read.mem_internal.mpr hinternal)⟩
  · rw [Read.lookup_not_internal fun hin => hinternal (read.mem_internal.mp hin)]
    have hmem : peer ∈ read.read.knownPeers.filter fun other => other.pair = peer.pair :=
      mem_filter.mpr ⟨mem_filter.mpr ⟨hrow, hknown⟩, decide_eq_true rfl⟩
    rcases Option.isSome_iff_exists.mp
      (getLast?_isSome.mpr (ne_nil_of_mem hmem)) with ⟨last, hlast⟩
    exact ⟨last.penalty, by rw [hlast]; rfl⟩

end

theorem mem_nodes (read : TableRead tables) {key : Nat} :
    key ∈ read.read.graph.nodes <-> key ∈ tables.rows.ndDict := by
  have hstart : forall {idx : Nat}, idx ∈ (Graph.empty.addNodesFrom read.read.rows.ndDict.keys).nodes <->
      idx ∈ tables.rows.ndDict := by
    intro idx
    rw [← Rows.mem_ndDict_congr read.sameRows]
    show idx ∈ ∅ ∪ read.read.rows.ndDict.keys.toFinset <-> _
    rw [Finset.empty_union, mem_toFinset]
    exact AList.mem_keys.symm
  unfold Read.graph
  rw [Graph.nodes_addEdges, hstart]
  intro edge hedge
  rw [hstart, hstart]
  exact Rows.known_of_link (read.link_of_mem hedge)

theorem weight_eq (read : TableRead tables) (ends : Sym2 Nat) :
    read.read.graph.weight ends =
      (read.read.simplePeers.filter fun edge => s(edge.1.1, edge.1.2) = ends).getLast?.map
        Prod.snd := by
  unfold Read.graph
  rw [Graph.weight_addEdges]
  exact Option.or_none

def ofPeers (tables : Tables Name) (peers : List PeerInformation)
    (hpeers : peers.Perm tables.rows.peers) : TableRead tables :=
  let rows : Rows Name :=
    { devices := tables.rows.devices
      netdevices := tables.rows.netdevices.insertionSort fun nd later =>
        nd.orderKey ≤ later.orderKey
      peers := peers }
  let start : Read Name := { rows := rows, ndLists := rows.devDict.values, simplePeers := [] }
  { read := { start with simplePeers := start.dicts.simplePeerDict.items }
    sameRows :=
      { devices := rfl
        netdevices := perm_insertionSort _ _
        peers := hpeers }
    ordered := pairwise_insertionSort _ _
    ndLists := Perm.refl _
    simplePeers := by
      intro dicts hdicts
      have hbuilt := start.peerDicts_eq
      rw [show start.rows.peerDicts start.ndLists = .ok dicts from hdicts] at hbuilt
      injection hbuilt with hbuilt
      rw [hbuilt] }

/-- The same read with another order of the dictionary. -/
def reorder (read : TableRead tables) (items : List ((Nat × Nat) × Int))
    (hitems : items.Perm read.read.simplePeers) : TableRead tables where
  read := { read.read with simplePeers := items }
  sameRows := read.sameRows
  ordered := read.ordered
  ndLists := read.ndLists
  simplePeers := fun dicts hdicts => hitems.trans (read.simplePeers dicts hdicts)

theorem exists_mem (link : (Nat × Nat) × Int) (h : tables.rows.Link link) :
    exists read : TableRead tables, link ∈ read.read.simplePeers := by
  rcases h with ⟨hinternal, hpenalty⟩ | ⟨hinternal, peer, hrow, hknown, rfl⟩
  · have read := ofPeers tables tables.rows.peers (Perm.refl _)
    refine ⟨read, read.mem_simplePeers.mpr ?_⟩
    rw [← Rows.internalPair_congr read.sameRows] at hinternal
    rw [Read.lookup_internal (read.mem_internal.mpr hinternal), hpenalty]
  · -- the row of the link comes last
    have hperm : (tables.rows.peers.erase peer ++ [peer]).Perm tables.rows.peers :=
      perm_append_singleton peer _ |>.trans (perm_cons_erase hrow).symm
    generalize hread : ofPeers tables _ hperm = read
    refine ⟨read, read.mem_simplePeers.mpr ?_⟩
    rw [← Rows.internalPair_congr read.sameRows] at hinternal
    rw [Read.lookup_not_internal fun hin => hinternal (read.mem_internal.mp hin)]
    have hpeers : read.read.rows.peers = tables.rows.peers.erase peer ++ [peer] := by
      rw [← hread]
      rfl
    have hlast : read.read.rows.known peer = true := by
      rw [Rows.known_congr read.sameRows]
      exact hknown
    have hsame : ([peer].filter fun other => other.pair = (peer.pair, peer.penalty).1) = [peer] :=
      filter_cons_of_pos (decide_eq_true rfl)
    unfold Read.knownPeers
    rw [hpeers, filter_append, filter_append,
      filter_cons_of_pos hlast, filter_nil, hsame, getLast?_concat]
    rfl

theorem exists_first {link : (Nat × Nat) × Int} {read : TableRead tables}
    (h : link ∈ read.read.simplePeers) :
    exists other : TableRead tables, other.read.rows = read.read.rows ∧
      exists rest, other.read.simplePeers = link :: rest :=
  ⟨read.reorder (link :: read.read.simplePeers.erase link) (perm_cons_erase h).symm, rfl,
    _, rfl⟩

end TableRead
end Icsw.Topology
