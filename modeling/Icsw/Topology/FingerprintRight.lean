import Icsw.Topology.Fingerprint
import Mathlib.Data.Char

/-!
# Where the fingerprint is right

A content of the tables keeps one fingerprint only when it has at most one link, and a later
content with the link the other way round has the same graph, but not the same fingerprint.
-/

namespace Icsw.Topology

open Foundation List

variable {Name : Type}

def Netdevice.withoutRouting (nd : Netdevice Name) : Netdevice Name :=
  { nd with interDeviceRouting := false }

/-- The same netdevices with one peer and no internal links. -/
def Tables.onlyPeer (tables : Tables Name) (peer : PeerInformation) : Tables Name where
  rows :=
    { devices := tables.rows.devices
      netdevices := tables.rows.netdevices.map Netdevice.withoutRouting
      peers := [peer] }
  idx_nodup := by
    rw [map_map]
    exact tables.idx_nodup
  devname_inj := by
    intro nd other hnd hother hdevice hname
    rcases mem_map.mp hnd with ⟨row, hrow, rfl⟩
    rcases mem_map.mp hother with ⟨row', hrow', rfl⟩
    rw [tables.devname_inj row row' hrow hrow' hdevice hname]

namespace Rows

theorem mem_ndDict_onlyPeer {tables : Tables Name} {peer : PeerInformation} {idx : Nat} :
    idx ∈ (tables.onlyPeer peer).rows.ndDict <-> idx ∈ tables.rows.ndDict := by
  rw [mem_ndDict, mem_ndDict]
  constructor
  · rintro ⟨nd, hnd, hidx⟩
    rcases mem_allNds.mp hnd with ⟨hrow, husable⟩
    rcases mem_map.mp hrow with ⟨row, hmem, rfl⟩
    exact ⟨row, mem_allNds.mpr ⟨hmem, husable⟩, hidx⟩
  · rintro ⟨nd, hnd, hidx⟩
    rcases mem_allNds.mp hnd with ⟨hrow, husable⟩
    exact ⟨nd.withoutRouting, mem_allNds.mpr ⟨mem_map_of_mem hrow, husable⟩, hidx⟩

variable [LinearOrder Name]

theorem link_onlyPeer {tables : Tables Name} {peer : PeerInformation}
    (hknown : peer.sNetdevice ∈ tables.rows.ndDict ∧ peer.dNetdevice ∈ tables.rows.ndDict)
    {link : (Nat × Nat) × Int} :
    (tables.onlyPeer peer).rows.Link link <-> link = (peer.pair, peer.penalty) := by
  have hinternal : forall pair, ¬ (tables.onlyPeer peer).rows.InternalPair pair := by
    rintro pair ⟨nd, _, hnd, _, _, hrouting, _⟩
    rcases mem_map.mp (mem_allNds.mp hnd).left with ⟨row, _, rfl⟩
    cases hrouting
  constructor
  · rintro (⟨hin, _⟩ | ⟨_, other, hother, _, heq⟩)
    · exact absurd hin (hinternal link.1)
    · rw [← heq, mem_singleton.mp hother]
  · rintro rfl
    refine Or.inr ⟨hinternal _, peer, mem_singleton.mpr rfl, ?_, rfl⟩
    exact decide_eq_true ⟨mem_ndDict_onlyPeer.mpr hknown.left, mem_ndDict_onlyPeer.mpr hknown.right⟩

end Rows

variable [LinearOrder Name]

/-- There are netdevices, and no links but one of a netdevice with itself. -/
structure Tables.OnlyLoop (tables : Tables Name) : Prop where
  nodes : exists nd, nd ∈ tables.rows.allNds
  oneLink : tables.OneLink
  loop : forall link, tables.rows.Link link -> link.1.1 = link.1.2

section Later

variable {tables tables' : Tables Name}

theorem weight_isSome_iff {read : TableRead tables} {ends : Sym2 Nat} :
    (read.read.graph.weight ends).isSome = true <->
      exists edge, edge ∈ read.read.simplePeers ∧ s(edge.1.1, edge.1.2) = ends := by
  rw [read.weight_eq, Option.isSome_map, getLast?_isSome]
  constructor
  · intro hne
    rcases exists_mem_of_ne_nil _ hne with ⟨edge, hedge⟩
    rcases mem_filter.mp hedge with ⟨hmem, hends⟩
    exact ⟨edge, hmem, of_decide_eq_true hends⟩
  · rintro ⟨edge, hmem, hends⟩
    exact ne_nil_of_mem (mem_filter.mpr ⟨hmem, decide_eq_true hends⟩)

theorem loop_of_later {first : TableRead tables} {link : (Nat × Nat) × Int}
    (hone : tables.OneLink) (hlink : tables.rows.Link link)
    (hright : forall (later : Tables Name) (second : TableRead later),
      first.read.graph = second.read.graph -> first.read.simplePeers = second.read.simplePeers) :
    link.1.1 = link.1.2 := by
  have hknown := Rows.known_of_link hlink
  let turned : PeerInformation :=
    { sNetdevice := link.1.2, dNetdevice := link.1.1, penalty := link.2 }
  have hlinks : forall other, (tables.onlyPeer turned).rows.Link other <->
      other = (turned.pair, turned.penalty) := fun other => Rows.link_onlyPeer hknown.symm
  have hone' : (tables.onlyPeer turned).OneLink := fun other third hother hthird =>
    ((hlinks other).mp hother).trans ((hlinks third).mp hthird).symm
  generalize hsecond : TableRead.ofPeers (tables.onlyPeer turned) _ (Perm.refl _) = second
  have hitems : first.read.simplePeers = [link] := simplePeers_eq_of_link hone hlink
  have hitems' : second.read.simplePeers = [(turned.pair, turned.penalty)] :=
    simplePeers_eq_of_link hone' ((hlinks _).mpr rfl)
  have hgraph : first.read.graph = second.read.graph := by
    apply Graph.ext
    · ext key
      rw [first.mem_nodes, second.mem_nodes, Rows.mem_ndDict_onlyPeer]
    · funext ends
      have hswap : s(turned.pair.1, turned.pair.2) = s(link.1.1, link.1.2) := Sym2.eq_swap
      rw [first.weight_eq, second.weight_eq, hitems, hitems', filter_singleton,
        filter_singleton, hswap]
      cases decide (s(link.1.1, link.1.2) = ends) with
      | false => rfl
      | true => rfl
  have heq := hright _ second hgraph
  rw [hitems, hitems'] at heq
  have hpair : link.1 = turned.pair := congrArg Prod.fst (head_eq_of_cons_eq heq)
  exact congrArg Prod.fst hpair

theorem sameOrder_of_onlyLoop (h : tables.OnlyLoop) (first : TableRead tables)
    (second : TableRead tables') : SameOrder first second where
  ofRows := fun hrows => simplePeers_eq_of_oneLink h.oneLink fun _ => Rows.link_congr hrows
  nodes := fun _ => h.nodes
  ofGraph := by
    intro hgraph
    have hends : forall ends,
        (exists edge, edge ∈ second.read.simplePeers ∧ s(edge.1.1, edge.1.2) = ends) <->
          exists edge, edge ∈ first.read.simplePeers ∧ s(edge.1.1, edge.1.2) = ends := fun ends => by
      rw [← weight_isSome_iff, ← weight_isSome_iff, hgraph]
    by_cases hlink : exists link, tables.rows.Link link
    · rcases hlink with ⟨link, hlink⟩
      have hitems : first.read.simplePeers = [link] := simplePeers_eq_of_link h.oneLink hlink
      have hpair : forall edge, edge ∈ second.read.simplePeers -> edge.1 = link.1 := by
        intro edge hedge
        rcases (hends _).mp ⟨edge, hedge, rfl⟩ with ⟨other, hother, heq⟩
        rw [hitems, mem_singleton] at hother
        rw [hother, ← h.loop link hlink] at heq
        have hboth := Sym2.eq_iff.mp heq.symm
        rw [or_self] at hboth
        exact Prod.ext hboth.left (hboth.right.trans (h.loop link hlink))
      rcases (hends _).mpr ⟨link, hitems ▸ mem_singleton.mpr rfl, rfl⟩ with ⟨edge, hedge, _⟩
      have hkeys : second.read.simplePeers.map Prod.fst = [link.1] := by
        apply eq_singleton second.nodup_simplePeers
        · intro pair hmem
          rcases mem_map.mp hmem with ⟨other, hother, rfl⟩
          exact hpair other hother
        · exact ne_nil_of_mem (mem_map_of_mem hedge)
      rcases map_eq_singleton_iff.mp hkeys with ⟨only, honly, hfirst⟩
      have hweight := congrArg (fun graph => graph.weight s(link.1.1, link.1.2)) hgraph
      simp only [TableRead.weight_eq, hitems, honly, filter_singleton, hfirst, decide_true,
        cond_true] at hweight
      injection hweight with hpenalty
      rw [hitems, honly, Prod.ext hfirst.symm hpenalty]
    · have hnil : first.read.simplePeers = [] :=
        eq_nil_iff_forall_not_mem.mpr fun link hmem => hlink ⟨link, first.link_of_mem hmem⟩
      have hnil' : second.read.simplePeers = [] := by
        apply eq_nil_iff_forall_not_mem.mpr
        intro edge hedge
        rcases (hends _).mp ⟨edge, hedge, rfl⟩ with ⟨other, hother, _⟩
        rw [hnil] at hother
        cases hother
      rw [hnil, hnil']

theorem alwaysSameOrder_iff (tables : Tables Name) :
    (forall (later : Tables Name) (first : TableRead tables) (second : TableRead later),
      SameOrder first second) <-> tables.OnlyLoop := by
  constructor
  · intro h
    have hone : tables.OneLink := oneLink_of_simplePeers fun first second =>
      (h tables first second).ofRows
        { devices := rfl, netdevices := Perm.refl _, peers := Perm.refl _ }
    have read := TableRead.ofPeers tables _ (Perm.refl _)
    exact
      { nodes := (h tables read read).nodes rfl
        oneLink := hone
        loop := fun link hlink => loop_of_later hone hlink fun later second =>
          (h later read second).ofGraph }
  · intro h later first second
    exact sameOrder_of_onlyLoop h first second

end Later
/-- The fingerprint of an update is right exactly where the order of the edges is; it does not
depend on the order in a content with at most one link, and whatever is read later it is right only
when this link is a loop. -/
theorem fingerprint_identifies_iff (hexdigest : Text -> Text)
    (hinj : Function.Injective hexdigest) (hdigits : forall fed, hexdigest fed ≠ "N/A".toList) :
    (forall (tables tables' : Tables Name) (first : TableRead tables) (second : TableRead tables'),
      FingerprintRight hexdigest first second <-> SameOrder first second) ∧
    (forall tables : Tables Name,
      (forall first second : TableRead tables, SameFingerprint hexdigest first second) <->
        tables.OneLink) ∧
    forall tables : Tables Name,
      (forall (later : Tables Name) (first : TableRead tables) (second : TableRead later),
        FingerprintRight hexdigest first second) <-> tables.OnlyLoop := by
  refine ⟨fun _ _ _ _ => fingerprintRight_iff_sameOrder hinj hdigits, fun _ =>
    oneFingerprint_iff hinj, fun tables => ?_⟩
  rw [← alwaysSameOrder_iff]
  simp only [fingerprintRight_iff_sameOrder hinj hdigits]

def sampleNetdevice (idx : Nat) (devname : Text) : Netdevice Text where
  idx := idx
  device := idx
  devname := devname
  snmpIdx := 0
  enabled := true
  penalty := 1
  interDeviceRouting := true

/-- Two peers between three devices. -/
def sampleRows : Rows Text where
  devices := fun _ => { isMetaDevice := false, enabled := true, groupEnabled := true }
  netdevices := [sampleNetdevice 1 "eth0".toList, sampleNetdevice 2 "eth0".toList,
    sampleNetdevice 3 "eth1".toList]
  peers := [{ sNetdevice := 1, dNetdevice := 2, penalty := 5 },
    { sNetdevice := 2, dNetdevice := 3, penalty := 7 }]

theorem sampleRows_devname_inj : forall nd, nd ∈ sampleRows.netdevices ->
    forall other, other ∈ sampleRows.netdevices ->
      nd.device = other.device -> nd.devname = other.devname -> nd = other := by decide

def sampleTables : Tables Text where
  rows := sampleRows
  idx_nodup := by decide
  devname_inj := fun nd other hnd hother => sampleRows_devname_inj nd hnd other hother

def sampleRead : TableRead sampleTables := .ofPeers sampleTables _ (Perm.refl _)

def sampleReadTurned : TableRead sampleTables := sampleRead.reorder _ (reverse_perm _)

theorem sampleRead_fed : sampleRead.read.fed = "n1n2n3e2,3,7e1,2,5".toList := by decide +kernel

theorem sampleReadTurned_fed :
    sampleReadTurned.read.fed = "n1n2n3e1,2,5e2,3,7".toList := by decide +kernel

/-- The digests of the two reads, and for everything else a text that is no digest. -/
def sampleDigest (fed : Text) : Text :=
  if fed = sampleRead.read.fed then
    "b8283c5c0a81560b17716fdd9dbe08449fedda371db5aeab7d523863b6bf1e5a".toList
  else if fed = sampleReadTurned.read.fed then
    "37b3aa22c34b2ba561b1f9bfe9057417601b753c12f1d8462a64bfdba29f1b20".toList
  else '-' :: fed

theorem sampleDigest_injective : Function.Injective sampleDigest := by
  intro fed fed' h
  unfold sampleDigest at h
  split_ifs at h with hfirst hfirst' hturned' hturned hfirst' hturned'
  · exact hfirst.trans hfirst'.symm
  · exact absurd h (by decide)
  · cases h
  · exact absurd h (by decide)
  · exact hturned.trans hturned'.symm
  · cases h
  · cases h
  · cases h
  · injection h

theorem sampleDigest_ne (fed : Text) : sampleDigest fed ≠ "N/A".toList := by
  unfold sampleDigest
  split_ifs
  · decide
  · decide
  · intro h
    injection h with hmark
    exact absurd hmark (by decide)

/-- The same rows with the peers in another order of the dictionary have another fingerprint. -/
theorem sampleRead_turned_changes :
    ¬ forall hexdigest : Text -> Text, Function.Injective hexdigest ->
      (forall fed, hexdigest fed ≠ "N/A".toList) ->
      forall (tables tables' : Tables Text) (first : TableRead tables) (second : TableRead tables'),
        FingerprintRight hexdigest first second := by
  intro h
  have hright := (fingerprintRight_iff sampleDigest_injective sampleDigest_ne).mp
    (h sampleDigest sampleDigest_injective sampleDigest_ne sampleTables sampleTables sampleRead
      sampleReadTurned)
  have hrows : SameRows sampleTables.rows sampleTables.rows :=
    { devices := rfl, netdevices := List.Perm.refl _, peers := List.Perm.refl _ }
  have hfed := hright.left hrows
  rw [sampleRead_fed, sampleReadTurned_fed] at hfed
  exact absurd hfed (by decide)

/-- The sample has two links. -/
theorem sampleTables_two_fingerprints :
    Function.Injective sampleDigest ∧ (forall fed, sampleDigest fed ≠ "N/A".toList) ∧
      ¬ forall first second : TableRead sampleTables,
        SameFingerprint sampleDigest first second := by
  refine ⟨sampleDigest_injective, sampleDigest_ne, fun h => ?_⟩
  have hone := ((fingerprint_identifies_iff sampleDigest sampleDigest_injective
    sampleDigest_ne).right.left sampleTables).mp h
  have hedges : sampleRead.read.simplePeers = [((2, 3), 7), ((1, 2), 5)] := by decide +kernel
  have hlink : forall link, link ∈ sampleRead.read.simplePeers -> sampleTables.rows.Link link :=
    fun link => sampleRead.link_of_mem
  rw [hedges] at hlink
  have heq := hone _ _ (hlink ((2, 3), 7) (by decide)) (hlink ((1, 2), 5) (by decide))
  exact absurd heq (by decide)

end Icsw.Topology
