import Icsw.Topology.Routes
import Icsw.Topology.Tables

/-!
# The penalty of a path

A path of the graph is rated by the last row that joins each two of its netdevices and by their own
penalties.  This is its weight and a toll for what the graph does not know.
-/

namespace Icsw.Topology

open Foundation List

variable {Name : Type}

namespace Read

variable (read : Read Name)

def rates : List (Sym2 Nat × Int) :=
  (read.knownPeers.map fun peer => (s(peer.pair.1, peer.pair.2), read.rows.rated peer)) ++
    read.internal.map fun pair => (s(pair.1, pair.2), intPenalty)

/-- The last rate of a link, in whatever direction it is stored. -/
def rate (ends : Sym2 Nat) : Option Int :=
  (read.rates.filter fun entry => entry.1 = ends).getLast?.map Prod.snd

def rateOf (a b : Nat) : Int := (read.rate s(a, b)).getD 0

def linkToll (a b : Nat) : Int := read.rateOf a b - read.graph.weightOf a b

/-- What a path costs on top of its weight. -/
def toll (path : List Nat) : Int :=
  alongLinks read.linkToll path + (path.map read.rows.penaltyOf).sum

end Read

theorem filter_bothWays (pair : Nat × Nat) (penalty : Int) (a b : Nat) :
    ((bothWays pair penalty).filter fun entry => entry.1 = (a, b)).getLast?.map Prod.snd =
      if s(pair.1, pair.2) = s(a, b) then some penalty else none := by
  unfold bothWays
  rw [filter_cons, filter_singleton]
  dsimp only
  by_cases hends : s(pair.1, pair.2) = s(a, b)
  · rw [if_pos hends]
    rcases Sym2.eq_iff.mp hends with ⟨hfirst, hsecond⟩ | ⟨hfirst, hsecond⟩
    · rw [decide_eq_true (show pair = (a, b) from Prod.ext hfirst hsecond), if_pos rfl]
      cases hback : decide (pair.swap = (a, b)) <;> rfl
    · rw [decide_eq_true (show pair.swap = (a, b) from Prod.ext hsecond hfirst), cond_true]
      split_ifs <;> rfl
  · rw [if_neg hends]
    have hforth : ¬ pair = (a, b) := fun heq => hends (by rw [heq])
    have hback : ¬ pair.swap = (a, b) := fun heq => hends (by
      rw [← Prod.swap_swap pair, heq]
      exact Sym2.eq_swap)
    rw [decide_eq_false hforth, decide_eq_false hback]
    rfl

theorem lookup_bothWays {Row : Type} (rows : List Row) (pair : Row -> Nat × Nat)
    (penalty : Row -> Int) (a b : Nat) :
    ((rows.flatMap fun row => bothWays (pair row) (penalty row)).filter
        fun entry => entry.1 = (a, b)).getLast?.map Prod.snd =
      ((rows.map fun row => (s((pair row).1, (pair row).2), penalty row)).filter
        fun entry => entry.1 = s(a, b)).getLast?.map Prod.snd := by
  induction rows using reverseRecOn with
  | nil => rfl
  | append_singleton rows row ih =>
    rw [flatMap_append, flatMap_singleton, filter_append, getLast?_append,
      map_append, map_singleton, filter_append, getLast?_append,
      Option.map_or, Option.map_or, ih, filter_bothWays, filter_singleton]
    by_cases hends : s((pair row).1, (pair row).2) = s(a, b)
    · rw [if_pos hends, decide_eq_true hends]
      rfl
    · rw [if_neg hends, decide_eq_false hends]
      rfl

namespace Read

theorem lookup_peerDict (read : Read Name) (a b : Nat) :
    read.dicts.peerDict.lookup (a, b) = read.rate s(a, b) := by
  unfold dicts ratedEntries rate rates
  rw [Dict.lookup_assign, filter_append, getLast?_append, filter_append,
    getLast?_append, Option.map_or, Option.map_or,
    lookup_bothWays _ PeerInformation.pair read.rows.rated,
    lookup_bothWays read.internal (fun pair => pair) fun _ => intPenalty]

theorem rate_isSome_of_mem {read : Read Name} {entry : Sym2 Nat × Int} (h : entry ∈ read.rates) :
    (read.rate entry.1).isSome = true := by
  unfold rate
  rw [Option.isSome_map, getLast?_isSome]
  exact ne_nil_of_mem (mem_filter.mpr ⟨h, decide_eq_true rfl⟩)

end Read

variable [LinearOrder Name]

namespace TableRead

variable {tables : Tables Name}

theorem exists_of_link (read : TableRead tables) {a b : Nat} (h : read.read.graph.Link a b) :
    exists edge, edge ∈ read.read.simplePeers ∧ s(edge.1.1, edge.1.2) = s(a, b) ∧
      read.read.graph.weightOf a b = edge.2 := by
  unfold Graph.Link at h
  unfold Graph.weightOf
  rw [read.weight_eq] at h ⊢
  rcases Option.isSome_iff_exists.mp h with ⟨weight, hweight⟩
  rcases Option.map_eq_some_iff.mp hweight with ⟨edge, hlast, rfl⟩
  rcases mem_filter.mp (mem_of_getLast? hlast) with ⟨hmem, hends⟩
  exact ⟨edge, hmem, of_decide_eq_true hends, by rw [hweight]; rfl⟩

theorem rate_of_link (read : TableRead tables) {a b : Nat} (h : read.read.graph.Link a b) :
    read.read.rate s(a, b) = some (read.read.rateOf a b) := by
  rcases read.exists_of_link h with ⟨⟨pair, penalty⟩, hmem, hends, _⟩
  have hlookup := read.mem_simplePeers.mp hmem
  have hentry : exists rated, (s(a, b), rated) ∈ read.read.rates := by
    rw [← hends]
    by_cases hinternal : pair ∈ read.read.internal
    · exact ⟨intPenalty, mem_append_right _ (mem_map.mpr ⟨pair, hinternal, rfl⟩)⟩
    · rw [Read.lookup_not_internal hinternal] at hlookup
      rcases Option.map_eq_some_iff.mp hlookup with ⟨peer, hlast, _⟩
      rcases mem_filter.mp (mem_of_getLast? hlast) with ⟨hpeer, hpair⟩
      rw [← of_decide_eq_true hpair]
      exact ⟨_, mem_append_left _ (mem_map.mpr ⟨peer, hpeer, rfl⟩)⟩
  rcases hentry with ⟨rated, hrated⟩
  rcases Option.isSome_iff_exists.mp (Read.rate_isSome_of_mem hrated) with ⟨rate, hrate⟩
  unfold Read.rateOf
  rw [hrate]
  rfl

theorem mem_ndDict_of_link (read : TableRead tables) {a b : Nat} (h : read.read.graph.Link a b) :
    a ∈ read.read.rows.ndDict ∧ b ∈ read.read.rows.ndDict := by
  rcases read.exists_of_link h with ⟨edge, hmem, hends, _⟩
  have hknown := Rows.known_of_link (read.link_of_mem hmem)
  rw [← Rows.mem_ndDict_congr read.sameRows, ← Rows.mem_ndDict_congr read.sameRows] at hknown
  rcases Sym2.eq_iff.mp hends with ⟨hfirst, hsecond⟩ | ⟨hfirst, hsecond⟩
  · rwa [hfirst, hsecond] at hknown
  · rw [hfirst, hsecond] at hknown
    exact hknown.symm

end TableRead

theorem link_symm {graph : Graph} {a b : Nat} (h : graph.Link a b) : graph.Link b a := by
  unfold Graph.Link at h ⊢
  rwa [Sym2.eq_swap]

theorem mapM_zip_tail {f : Nat × Nat -> Except PyError Int} {amount : Nat -> Nat -> Int}
    {path : List Nat} (h : path.IsChain fun a b => f (a, b) = .ok (amount a b)) :
    exists links, (path.zip path.tail).mapM f = .ok links ∧ links.sum = alongLinks amount path := by
  induction path with
  | nil => exact ⟨[], rfl, rfl⟩
  | cons first rest ih =>
    cases rest with
    | nil => exact ⟨[], rfl, rfl⟩
    | cons second rest =>
      rcases isChain_cons_cons.mp h with ⟨hfirst, hrest⟩
      rcases ih hrest with ⟨links, hlinks, hsum⟩
      refine ⟨amount first second :: links, ?_, ?_⟩
      · show ((first, second) :: (second :: rest).zip rest).mapM f = _
        rw [mapM_cons, hfirst, show ((second :: rest).zip rest).mapM f = .ok links from hlinks]
        rfl
      · rw [sum_cons, hsum]
        rfl

omit [LinearOrder Name] in
theorem mapM_ndDict {rows : Rows Name} {path : List Nat}
    (h : forall a, a ∈ path -> a ∈ rows.ndDict) :
    exists nds, path.mapM (fun entry => getItem rows.ndDict entry) = .ok nds ∧
      nds.map Netdevice.penalty = path.map rows.penaltyOf := by
  induction path with
  | nil => exact ⟨[], rfl, rfl⟩
  | cons first rest ih =>
    rcases ih fun a ha => h a (mem_cons_of_mem first ha) with ⟨nds, hnds, hpenalties⟩
    rcases Dict.exists_lookup (h first mem_cons_self) with ⟨nd, hnd⟩
    refine ⟨nd :: nds, ?_, ?_⟩
    · rw [mapM_cons, hnds]
      unfold getItem
      rw [hnd]
      rfl
    · rw [map_cons, map_cons, hpenalties, Rows.penaltyOf, hnd]
      rfl

namespace TableRead

variable {tables : Tables Name}

theorem getPenalty_eq (read : TableRead tables) {router : RouterObject Name} {s d : Nat}
    {path : List Nat} (hdicts : router.dicts = read.read.dicts)
    (hndDict : router.ndDict = read.read.rows.ndDict) (hs : s ∈ read.read.rows.ndDict)
    (hpath : SimplePath read.read.graph.Link s d path) :
    router.getPenalty path = .ok (read.read.graph.pathWeight path + read.read.toll path) := by
  have hchain : path.IsChain fun a b =>
      getItem router.dicts.peerDict (a, b) = .ok (read.read.rateOf a b) := by
    apply hpath.linked.imp
    intro a b hlink
    unfold getItem
    rw [hdicts, Read.lookup_peerDict, read.rate_of_link hlink]
    rfl
  rcases mapM_zip_tail hchain with ⟨links, hlinks, hsum⟩
  have hknown : forall a, a ∈ path -> a ∈ read.read.rows.ndDict :=
    hpath.forall_mem hs fun a b hlink => (read.mem_ndDict_of_link hlink).right
  rcases mapM_ndDict hknown with ⟨nds, hnds, hpenalties⟩
  have hsplit : alongLinks read.read.rateOf path =
      read.read.graph.pathWeight path + alongLinks read.read.linkToll path := by
    rw [Graph.pathWeight, ← alongLinks_add]
    unfold Read.linkToll
    simp only [add_sub_cancel]
  unfold RouterObject.getPenalty
  rw [bind_of_ok hlinks, hndDict, bind_of_ok hnds, hsum, hpenalties, hsplit, Int.add_assoc]
  rfl

end TableRead
end Icsw.Topology
