import Icsw.Topology.PathPenalty
import Mathlib.Data.Char

/-!
# Cheapest routes

The routes that are found have the least weight, and the penalty adds the tolls.  The least penalty
is reported exactly when no path that is longer by its weight saves more than that by its tolls.
-/

namespace Icsw.Topology

open Foundation List

variable {Name : Type}

/-- A penalty that is returned for two netdevices. -/
def Reported (routes : List Route) (s d : Nat) (penalty : Int) : Prop :=
  (exists path, Route.penaltyPath penalty path ∈ routes ∧ path.head? = some s ∧
    path.getLast? = some d) ∨ Route.penaltyEnds penalty s d ∈ routes

def Rated (router : RouterObject Name) (graph : Graph) (s d : Nat) (penalty : Int) : Prop :=
  exists path, SimplePath graph.Link s d path ∧ router.getPenalty path = .ok penalty

def ReportsLeast (nx : Networkx) (router : RouterObject Name) (graph : Graph)
    (sList dList : List Nat) (onlyEp : Bool) : Prop :=
  exists routes, router.getNdlNdlPathes nx sList dList onlyEp true = .ok routes ∧
    forall s d, s ∈ sList -> d ∈ dList -> forall penalty,
      IsLeast {reported | Reported routes s d reported} penalty <->
        IsLeast {rated | Rated router graph s d rated} penalty

namespace Read

variable (read : Read Name)

def cost (path : List Nat) : Int :=
  read.graph.pathWeight path + read.toll path

/-- For each path one of the shortest ones saves no less by its weight than it loses by its tolls. -/
def SomeShortIsCheap (s d : Nat) : Prop :=
  forall path, SimplePath read.graph.Link s d path ->
    exists short, LeastPath read.graph.Link read.graph.pathWeight s d short ∧
      read.toll short - read.toll path ≤ read.graph.pathWeight path - read.graph.pathWeight short

/-- Each of the shortest paths saves no less by its weight than it loses by its tolls. -/
def EachShortIsCheap (s d : Nat) : Prop :=
  forall path short, SimplePath read.graph.Link s d path ->
    LeastPath read.graph.Link read.graph.pathWeight s d short ->
      read.toll short - read.toll path ≤ read.graph.pathWeight path - read.graph.pathWeight short

def linkCost (a b : Nat) : Int := read.rateOf a b + read.rows.penaltyOf b

/-- One path is tight for labels that grow no faster than the weights, and for labels that grow no
faster than the costs. -/
def OneTightPath (s d : Nat) : Prop :=
  exists path short long, SimplePath read.graph.Link s d path ∧
    (Feasible read.graph.Link read.graph.weightOf short ∧ Tight read.graph.weightOf short path) ∧
    Feasible read.graph.Link read.linkCost long ∧ Tight read.linkCost long path

end Read

variable [LinearOrder Name]

namespace TableRead

variable {tables : Tables Name}

variable (read : TableRead tables)

theorem closed : read.read.graph.Closed := by
  intro a b hlink
  rw [read.mem_nodes, ← Rows.mem_ndDict_congr read.sameRows]
  exact (read.mem_ndDict_of_link hlink).right

theorem enumerated_correct : enumerated.CorrectFor read.read.graph :=
  Topology.enumerated_correct read.closed

variable {s d : Nat} {path : List Nat}

theorem simple_iff (hs : s ∈ tables.rows.ndDict)
    {paths : List (List Nat)} (hpaths : read.read.graph.simplePaths s d = paths) :
    SimplePath read.read.graph.Link s d path <-> path ∈ paths := by
  rw [← hpaths]
  exact (read.closed.mem_simplePaths (read.mem_nodes.mpr hs)).symm

structure Updated (router : RouterObject Name) : Prop where
  nx : router.nx = some read.read.graph
  dicts : router.dicts = read.read.dicts
  ndDict : router.ndDict = read.read.rows.ndDict

theorem updated_of_update {read : TableRead tables} {hexdigest : Text -> Text}
    {router updated : RouterObject Name} (h : router.update hexdigest read.read = .ok updated) :
    read.Updated updated := by
  rw [RouterObject.update_eq] at h
  injection h with h
  rw [← h]
  exact { nx := rfl, dicts := rfl, ndDict := rfl }

section Search

variable {read : TableRead tables} {router : RouterObject Name} {nx : Networkx} {onlyEp : Bool}
  {sList dList : List Nat}

theorem allPaths_ok (hrouter : read.Updated router) (hnx : nx.CorrectFor read.read.graph)
    (hs : forall s, s ∈ sList -> s ∈ read.read.graph.nodes)
    (hd : forall d, d ∈ dList -> d ∈ read.read.graph.nodes) :
    exists paths, router.allPaths nx onlyEp sList dList = .ok paths ∧
      forall path, path ∈ paths <->
        exists s d, (s ∈ sList ∧ d ∈ dList) ∧ nx.Finds read.read.graph onlyEp s d path := by
  have hbetween : forall pair, pair ∈ sList ×ˢ dList ->
      exists paths, router.nx.elim (.error .attributeError) (fun graph =>
        nx.pathsBetween graph onlyEp pair.1 pair.2) = .ok paths ∧
        forall path, path ∈ paths <-> nx.Finds read.read.graph onlyEp pair.1 pair.2 path := by
    intro pair hpair
    rcases pair_mem_product.mp hpair with ⟨hfirst, hsecond⟩
    rw [hrouter.nx]
    exact hnx.pathsBetween_ok (hs _ hfirst) (hd _ hsecond)
  rcases exists_mapM_ok fun pair hpair => (hbetween pair hpair).imp fun _ h => h.left with
    ⟨found, hfound⟩
  rcases mapM_ok_mem hfound with ⟨hpairs, hlists⟩
  refine ⟨found.flatten, bind_of_ok hfound, fun path => ?_⟩
  rw [mem_flatten]
  constructor
  · rintro ⟨paths, hpaths, hmem⟩
    rcases hlists paths hpaths with ⟨pair, hpair, hok⟩
    rcases hbetween pair hpair with ⟨paths', hok', hiff⟩
    rw [hok] at hok'
    injection hok' with heq
    rw [heq] at hmem
    exact ⟨pair.1, pair.2, pair_mem_product.mp hpair, (hiff path).mp hmem⟩
  · rintro ⟨s, d, hends, hfinds⟩
    have hpair : (s, d) ∈ sList ×ˢ dList := pair_mem_product.mpr hends
    rcases hpairs (s, d) hpair with ⟨paths, hpaths, hok⟩
    rcases hbetween (s, d) hpair with ⟨paths', hok', hiff⟩
    rw [hok] at hok'
    injection hok' with heq
    exact ⟨paths, hpaths, heq ▸ (hiff path).mpr hfinds⟩

variable (hrouter : read.Updated router)

include hrouter

theorem getPenalty_ok (hs : s ∈ read.read.graph.nodes)
    (hpath : SimplePath read.read.graph.Link s d path) :
    router.getPenalty path = .ok (read.read.cost path) := by
  rw [read.mem_nodes, ← Rows.mem_ndDict_congr read.sameRows] at hs
  exact read.getPenalty_eq hrouter.dicts hrouter.ndDict hs hpath

theorem rated_iff (hs : s ∈ read.read.graph.nodes) {penalty : Int} :
    Rated router read.read.graph s d penalty <->
      exists path, SimplePath read.read.graph.Link s d path ∧ read.read.cost path = penalty := by
  unfold Rated
  constructor
  · rintro ⟨path, hpath, hok⟩
    rw [getPenalty_ok hrouter hs hpath] at hok
    injection hok with hok
    exact ⟨path, hpath, hok⟩
  · rintro ⟨path, hpath, hcost⟩
    rw [← hcost]
    exact ⟨path, hpath, getPenalty_ok hrouter hs hpath⟩

theorem routeOf_ok (hs : s ∈ read.read.graph.nodes)
    (hpath : SimplePath read.read.graph.Link s d path) :
    router.routeOf onlyEp true path = .ok
      (if onlyEp = true then .penaltyEnds (read.read.cost path) s d
      else .penaltyPath (read.read.cost path) path) := by
  unfold RouterObject.routeOf
  rw [if_pos rfl, bind_of_ok (getPenalty_ok hrouter hs hpath)]
  cases onlyEp with
  | true =>
    have hends : endsOf path = .ok (s, d) := by
      unfold endsOf
      rw [hpath.head, hpath.last]
    rw [if_pos rfl, if_pos rfl, bind_of_ok hends]
    rfl
  | false => rfl

theorem reported_iff (hnx : nx.CorrectFor read.read.graph)
    (hs : forall s, s ∈ sList -> s ∈ read.read.graph.nodes)
    (hd : forall d, d ∈ dList -> d ∈ read.read.graph.nodes) :
    exists routes, router.getNdlNdlPathes nx sList dList onlyEp true = .ok routes ∧
      forall s d, s ∈ sList -> d ∈ dList -> forall penalty,
        Reported routes s d penalty <->
          exists path, nx.Finds read.read.graph onlyEp s d path ∧
            read.read.cost path = penalty := by
  have hall : exists paths, router.allPaths nx onlyEp sList dList = .ok paths ∧ _ :=
    allPaths_ok hrouter hnx hs hd
  rcases hall with ⟨paths, hpaths, hmem⟩
  have hfound : forall path, path ∈ paths -> exists s d,
      SimplePath read.read.graph.Link s d path ∧ nx.Finds read.read.graph onlyEp s d path ∧
        router.routeOf onlyEp true path = .ok
          (if onlyEp = true then .penaltyEnds (read.read.cost path) s d
          else .penaltyPath (read.read.cost path) path) := by
    intro path hpath
    rcases (hmem path).mp hpath with ⟨s, d, hends, hfinds⟩
    have hsimple := (hnx.least (hs s hends.left) (hd d hends.right) hfinds).simple
    exact ⟨s, d, hsimple, hfinds, routeOf_ok hrouter (hs s hends.left) hsimple⟩
  rcases exists_mapM_ok fun path hpath => by
    rcases hfound path hpath with ⟨s, d, _, _, hroute⟩
    exact ⟨_, hroute⟩ with ⟨routes, hroutes⟩
  rcases mapM_ok_mem hroutes with ⟨hforth, hback⟩
  refine ⟨routes, (bind_of_ok hpaths).trans hroutes, ?_⟩
  intro s d hsmem hdmem penalty
  constructor
  · rintro (⟨path, hroute, hhead, hlast⟩ | hroute)
    · rcases hback _ hroute with ⟨path', hpath', hok⟩
      rcases hfound path' hpath' with ⟨s', d', hsimple, hfinds, hok'⟩
      rw [hok] at hok'
      injection hok' with heq
      cases onlyEp with
      | true => cases heq
      | false =>
        injection heq with hpenalty hpath
        rw [hpath, hsimple.head] at hhead
        rw [hpath, hsimple.last] at hlast
        injection hhead with hhead
        injection hlast with hlast
        rw [← hhead, ← hlast]
        exact ⟨path', hfinds, hpenalty.symm⟩
    · rcases hback _ hroute with ⟨path', hpath', hok⟩
      rcases hfound path' hpath' with ⟨s', d', hsimple, hfinds, hok'⟩
      rw [hok] at hok'
      injection hok' with heq
      cases onlyEp with
      | true =>
        injection heq with hpenalty hfirst hlast
        rw [hfirst, hlast]
        exact ⟨path', hfinds, hpenalty.symm⟩
      | false => cases heq
  · rintro ⟨path, hfinds, hcost⟩
    have hpath := (hmem path).mpr ⟨s, d, ⟨hsmem, hdmem⟩, hfinds⟩
    have hsimple := (hnx.least (hs s hsmem) (hd d hdmem) hfinds).simple
    rcases hforth path hpath with ⟨route, hroute, hok⟩
    rw [routeOf_ok hrouter (hs s hsmem) hsimple, hcost] at hok
    injection hok with heq
    rw [← heq] at hroute
    cases onlyEp with
    | true => exact Or.inr hroute
    | false => exact Or.inl ⟨path, hroute, hsimple.head, hsimple.last⟩

theorem reportsLeast_iff (hnx : nx.CorrectFor read.read.graph)
    (hs : forall s, s ∈ sList -> s ∈ read.read.graph.nodes)
    (hd : forall d, d ∈ dList -> d ∈ read.read.graph.nodes) :
    ReportsLeast nx router read.read.graph sList dList onlyEp <->
      forall s d, s ∈ sList -> d ∈ dList -> forall path,
        SimplePath read.read.graph.Link s d path ->
          exists short, nx.Finds read.read.graph onlyEp s d short ∧
            read.read.cost short ≤ read.read.cost path := by
  have hall : exists routes, router.getNdlNdlPathes nx sList dList onlyEp true = .ok routes ∧ _ :=
    reported_iff hrouter hnx hs hd
  rcases hall with ⟨routes, hroutes, hreported⟩
  constructor
  · rintro ⟨routes', hroutes', hleast⟩ s d hsmem hdmem path hpath
    rw [hroutes] at hroutes'
    injection hroutes' with heq
    subst heq
    rcases read.closed.exists_least (hs s hsmem) hpath read.read.cost with ⟨cheapest, hcheapest⟩
    have hrated : IsLeast {rated | Rated router read.read.graph s d rated}
        (read.read.cost cheapest) := by
      refine ⟨(rated_iff hrouter (hs s hsmem)).mpr ⟨cheapest, hcheapest.simple, rfl⟩, ?_⟩
      intro rated hmem
      rcases (rated_iff hrouter (hs s hsmem)).mp hmem with ⟨other, hother, hcost⟩
      rw [← hcost]
      exact hcheapest.least other hother
    have hmem := ((hleast s d hsmem hdmem _).mpr hrated).left
    rcases (hreported s d hsmem hdmem _).mp hmem with ⟨short, hfinds, hcost⟩
    exact ⟨short, hfinds, hcost.le.trans (hcheapest.least path hpath)⟩
  · intro hcheap
    refine ⟨routes, hroutes, fun s d hsmem hdmem penalty => ?_⟩
    have hsubset : forall reported, Reported routes s d reported ->
        Rated router read.read.graph s d reported := by
      intro reported hmem
      rcases (hreported s d hsmem hdmem reported).mp hmem with ⟨short, hfinds, hcost⟩
      exact (rated_iff hrouter (hs s hsmem)).mpr
        ⟨short, (hnx.least (hs s hsmem) (hd d hdmem) hfinds).simple, hcost⟩
    have hbelow : forall rated, Rated router read.read.graph s d rated ->
        exists reported, Reported routes s d reported ∧ reported ≤ rated := by
      intro rated hmem
      rcases (rated_iff hrouter (hs s hsmem)).mp hmem with ⟨path, hpath, hcost⟩
      rcases hcheap s d hsmem hdmem path hpath with ⟨short, hfinds, hle⟩
      exact ⟨_, (hreported s d hsmem hdmem _).mpr ⟨short, hfinds, rfl⟩, hcost ▸ hle⟩
    constructor
    · rintro ⟨hmem, hlower⟩
      refine ⟨hsubset penalty hmem, fun rated hrated => ?_⟩
      rcases hbelow rated hrated with ⟨reported, hreported, hle⟩
      exact (hlower hreported).trans hle
    · rintro ⟨hmem, hlower⟩
      rcases hbelow penalty hmem with ⟨reported, hreported, hle⟩
      have heq := le_antisymm hle (hlower (hsubset reported hreported))
      rw [heq] at hreported
      exact ⟨hreported, fun other hother => hlower (hsubset other hother)⟩

end Search
end TableRead

omit [LinearOrder Name] in
theorem Read.cost_eq (read : Read Name) {s d : Nat} {path : List Nat}
    (h : SimplePath read.graph.Link s d path) :
    read.cost path = read.rows.penaltyOf s + alongLinks read.linkCost path := by
  have hrates : read.cost path =
      alongLinks read.rateOf path + (path.map read.rows.penaltyOf).sum := by
    unfold cost toll Graph.pathWeight
    rw [← Int.add_assoc, ← alongLinks_add]
    unfold linkToll
    simp only [add_sub_cancel]
  rcases h.eq_cons with ⟨rest, hpath⟩
  have hnodes := alongLinks_node read.rows.penaltyOf s rest
  have hlinks := alongLinks_add read.rateOf (fun _ b => read.rows.penaltyOf b) path
  rw [hrates]
  rw [hpath] at hlinks ⊢
  rw [show alongLinks read.linkCost (s :: rest) = _ from hlinks, ← hnodes]
  omega

structure Rows.NonNegative (rows : Rows Name) : Prop where
  netdevices : forall nd, nd ∈ rows.netdevices -> 0 ≤ nd.penalty
  peers : forall peer, peer ∈ rows.peers -> 0 ≤ peer.penalty

omit [LinearOrder Name] in
theorem Rows.NonNegative.penaltyOf {rows : Rows Name} (h : rows.NonNegative) (idx : Nat) :
    0 ≤ rows.penaltyOf idx := by
  unfold Rows.penaltyOf
  cases hnd : rows.ndDict.lookup idx with
  | none => exact le_rfl
  | some nd =>
    unfold Rows.ndDict at hnd
    rw [Dict.lookup_update_assign] at hnd
    rcases Option.map_eq_some_iff.mp hnd with ⟨row, hlast, rfl⟩
    have hrow := (mem_filter.mp (mem_of_getLast? hlast)).left
    exact h.netdevices row (Rows.mem_allNds.mp hrow).left

omit [LinearOrder Name] in
theorem Rows.NonNegative.rates {read : Read Name} (h : read.rows.NonNegative)
    {entry : Sym2 Nat × Int} (hentry : entry ∈ read.rates) : 0 ≤ entry.2 := by
  rcases mem_append.mp hentry with hpeer | hinternal
  · rcases mem_map.mp hpeer with ⟨peer, hmem, rfl⟩
    have hpenalty := h.peers peer (mem_filter.mp hmem).left
    have hsource := h.penaltyOf peer.sNetdevice
    have hdest := h.penaltyOf peer.dNetdevice
    show 0 ≤ peer.penalty + _ + _
    omega
  · rcases mem_map.mp hinternal with ⟨pair, _, rfl⟩
    exact Int.one_nonneg

omit [LinearOrder Name] in
theorem Rows.NonNegative.rateOf {read : Read Name} (h : read.rows.NonNegative) (a b : Nat) :
    0 ≤ read.rateOf a b := by
  unfold Read.rateOf Read.rate
  cases hlast : (read.rates.filter fun entry => entry.1 = s(a, b)).getLast? with
  | none => exact le_rfl
  | some entry => exact h.rates (mem_filter.mp (mem_of_getLast? hlast)).left

namespace TableRead

variable {tables : Tables Name}

section

variable (read : TableRead tables)
include read

section

variable (h : tables.rows.NonNegative)
include h

theorem nonNegative :
    read.read.rows.NonNegative where
  netdevices := fun nd hnd => h.netdevices nd (read.sameRows.netdevices.mem_iff.mp hnd)
  peers := fun peer hpeer => h.peers peer (read.sameRows.peers.mem_iff.mp hpeer)

theorem weightOf_nonneg (a b : Nat)
    (hlink : read.read.graph.Link a b) : 0 ≤ read.read.graph.weightOf a b := by
  rcases read.exists_of_link hlink with ⟨edge, hmem, _, hweight⟩
  rw [hweight]
  rcases read.link_of_mem hmem with ⟨_, hone⟩ | ⟨_, peer, hpeer, _, rfl⟩
  · rw [hone]
    exact Int.one_nonneg
  · exact h.peers peer hpeer

theorem linkCost_nonneg (a b : Nat) :
    0 ≤ read.read.linkCost a b :=
  Int.add_nonneg ((read.nonNegative h).rateOf a b) ((read.nonNegative h).penaltyOf b)

theorem someShortIsCheap_iff {s d : Nat} (hs : s ∈ read.read.graph.nodes) {path : List Nat}
    (hpath : SimplePath read.read.graph.Link s d path) :
    read.read.SomeShortIsCheap s d <-> read.read.OneTightPath s d := by
  have hnodup := read.read.graph.nodup_nodeList
  have hmem : forall (other : List Nat) (goal : Nat),
      SimplePath read.read.graph.Link s goal other ->
        forall a, a ∈ other -> a ∈ read.read.graph.nodeList :=
    fun other goal hother => read.closed.mem_nodeList hs hother
  constructor
  · intro hcheap
    rcases read.closed.exists_least hs hpath read.read.cost with ⟨cheapest, hcheapest⟩
    rcases hcheap cheapest hcheapest.simple with ⟨short, hshort, hsaves⟩
    have hcost : LeastPath read.read.graph.Link (alongLinks read.read.linkCost) s d short := by
      refine ⟨hshort.simple, fun other hother => ?_⟩
      have hle := hcheapest.least other hother
      have hother := read.read.cost_eq hother
      have hself := read.read.cost_eq hshort.simple
      unfold Read.cost at hle hother hself
      omega
    have hweight : LeastPath read.read.graph.Link (alongLinks read.read.graph.weightOf) s d short :=
      hshort
    rcases hweight.exists_label (read.weightOf_nonneg h) hnodup hmem fun a b => link_symm with
      ⟨label, hlabel⟩
    rcases hcost.exists_label (fun a b _ => read.linkCost_nonneg h a b) hnodup hmem
      fun a b => link_symm with ⟨label', hlabel'⟩
    exact ⟨short, label, label', hshort.simple, hlabel, hlabel'⟩
  · rintro ⟨short, label, label', hsimple, ⟨hfeasible, htight⟩, hfeasible', htight'⟩ other hother
    have hweight := hsimple.least_of_label hfeasible htight
    have hcost := (hsimple.least_of_label hfeasible' htight').least other hother
    refine ⟨short, hweight, ?_⟩
    have hother := read.read.cost_eq hother
    have hself := read.read.cost_eq hsimple
    unfold Read.cost at hother hself
    omega

end

end

end TableRead

/-- The least penalty is among those of all shortest paths exactly when one of these is cheap, and
that of any one of them is least exactly when each is cheap; without negative penalties two
labellings decide the first. -/
theorem cheapest_route_iff {tables : Tables Name} (read : TableRead tables)
    (hexdigest : Text -> Text) (router updated : RouterObject Name)
    (hupdate : router.update hexdigest read.read = .ok updated) (sList dList : List Nat)
    (hs : forall s, s ∈ sList -> s ∈ tables.rows.ndDict)
    (hd : forall d, d ∈ dList -> d ∈ tables.rows.ndDict) :
    (forall nx : Networkx, nx.CorrectFor read.read.graph ->
      (ReportsLeast nx updated read.read.graph sList dList false <->
        forall s d, s ∈ sList -> d ∈ dList -> read.read.SomeShortIsCheap s d)) ∧
    ((forall nx : Networkx, nx.CorrectFor read.read.graph ->
        ReportsLeast nx updated read.read.graph sList dList true) <->
      forall s d, s ∈ sList -> d ∈ dList -> read.read.EachShortIsCheap s d) ∧
    (tables.rows.NonNegative -> forall s d, s ∈ sList -> d ∈ dList ->
      (exists path, SimplePath read.read.graph.Link s d path) ->
        (read.read.SomeShortIsCheap s d <-> read.read.OneTightPath s d)) := by
  have hrouter := TableRead.updated_of_update hupdate
  have hsNodes : forall s, s ∈ sList -> s ∈ read.read.graph.nodes := fun s hmem =>
    read.mem_nodes.mpr (hs s hmem)
  have hdNodes : forall d, d ∈ dList -> d ∈ read.read.graph.nodes := fun d hmem =>
    read.mem_nodes.mpr (hd d hmem)
  refine ⟨fun nx hnx => ?_, ?_, ?_⟩
  · rw [TableRead.reportsLeast_iff hrouter hnx hsNodes hdNodes]
    unfold Read.SomeShortIsCheap Networkx.Finds Read.cost
    simp only [if_neg Bool.false_ne_true]
    constructor
    · intro h s d hsmem hdmem path hpath
      rcases h s d hsmem hdmem path hpath with ⟨short, hshort, hle⟩
      exact ⟨short, hshort, by omega⟩
    · intro h s d hsmem hdmem path hpath
      rcases h s d hsmem hdmem path hpath with ⟨short, hshort, hle⟩
      exact ⟨short, hshort, by omega⟩
  · constructor
    · intro h s d hsmem hdmem path short hpath hshort
      -- the search may find just this one
      have hnx := read.enumerated_correct.finding hshort
      rcases (TableRead.reportsLeast_iff hrouter hnx hsNodes hdNodes).mp (h _ hnx) s d hsmem hdmem
        path hpath with ⟨found, hfinds, hle⟩
      unfold Networkx.Finds at hfinds
      rw [if_pos rfl, show (enumerated.finding s d short).shortestPath read.read.graph s d =
        .ok short from if_pos ⟨rfl, rfl⟩] at hfinds
      injection hfinds with hfinds
      rw [← hfinds] at hle
      unfold Read.cost at hle
      omega
    · intro h nx hnx
      apply (TableRead.reportsLeast_iff hrouter hnx hsNodes hdNodes).mpr
      intro s d hsmem hdmem path hpath
      have hfound : exists found, nx.Finds read.read.graph true s d found :=
        hnx.exists_finds read.closed (hsNodes s hsmem) (hdNodes d hdmem) hpath
      rcases hfound with ⟨found, hfinds⟩
      have hle := h s d hsmem hdmem path found hpath
        (hnx.least (hsNodes s hsmem) (hdNodes d hdmem) hfinds)
      refine ⟨found, hfinds, ?_⟩
      unfold Read.cost
      omega
  · rintro hnonneg s d hsmem _ ⟨path, hpath⟩
    exact read.someShortIsCheap_iff hnonneg (hsNodes s hsmem) hpath

def triangleNetdevice (idx : Nat) (penalty : Int) : Netdevice Text where
  idx := idx
  device := idx
  devname := "eth0".toList
  snmpIdx := 0
  enabled := true
  penalty := penalty
  interDeviceRouting := true

variable (penalty : Int)

/-- A direct link and a way over a third netdevice, which is shorter. -/
def triangleRows : Rows Text where
  devices := fun _ => { isMetaDevice := false, enabled := true, groupEnabled := true }
  netdevices := [triangleNetdevice 1 0, triangleNetdevice 2 0, triangleNetdevice 3 penalty]
  peers := [{ sNetdevice := 1, dNetdevice := 2, penalty := 3 },
    { sNetdevice := 1, dNetdevice := 3, penalty := 1 },
    { sNetdevice := 3, dNetdevice := 2, penalty := 1 }]

theorem triangleRows_devname_inj : forall nd other,
    nd ∈ (triangleRows penalty).netdevices -> other ∈ (triangleRows penalty).netdevices ->
      nd.device = other.device -> nd.devname = other.devname -> nd = other := by
  intro nd other hnd hother hdevice _
  simp only [triangleRows, mem_cons, not_mem_nil, or_false] at hnd hother
  rcases hnd with rfl | rfl | rfl <;> rcases hother with rfl | rfl | rfl <;>
    first | rfl | cases hdevice

def triangleTables : Tables Text where
  rows := triangleRows penalty
  idx_nodup := (by decide : [1, 2, 3].Nodup)
  devname_inj := triangleRows_devname_inj penalty

def triangleRead : TableRead (triangleTables penalty) :=
  .ofPeers (triangleTables penalty) _ (Perm.refl _)

def triangleRouter : RouterObject Text where
  nx := some (triangleRead penalty).read.graph
  fp := (triangleRead penalty).read.fed
  previousFp := "N/A".toList
  ndDict := (triangleRead penalty).read.rows.ndDict
  dicts := (triangleRead penalty).read.dicts

theorem triangleRouter_update :
    RouterObject.initial.update id (triangleRead penalty).read = .ok (triangleRouter penalty) :=
  RouterObject.update_eq id RouterObject.initial (triangleRead penalty).read

theorem triangle_known (idx : Nat) (h : idx = 1 ∨ idx = 2) :
    idx ∈ (triangleTables penalty).rows.ndDict := by
  rw [Rows.mem_ndDict]
  rcases h with rfl | rfl
  · refine ⟨triangleNetdevice 1 0, mem_filter.mpr ⟨?_, rfl⟩, rfl⟩
    exact mem_cons_self
  · refine ⟨triangleNetdevice 2 0, mem_filter.mpr ⟨?_, rfl⟩, rfl⟩
    exact mem_cons_of_mem _ mem_cons_self

theorem triangle_simple {penalty : Int} {path : List Nat}
    (hpaths : (triangleRead penalty).read.graph.simplePaths 1 2 = [[1, 2], [1, 3, 2]]) :
    SimplePath (triangleRead penalty).read.graph.Link 1 2 path <->
      path ∈ [[1, 2], [1, 3, 2]] :=
  (triangleRead penalty).simple_iff (triangle_known penalty 1 (Or.inl rfl)) hpaths

theorem triangle_paths : (triangleRead 1).read.graph.simplePaths 1 2 = [[1, 2], [1, 3, 2]] := by
  decide +kernel

theorem triangle_paths_zero :
    (triangleRead 0).read.graph.simplePaths 1 2 = [[1, 2], [1, 3, 2]] := by
  decide +kernel

/-- The shorter way leads over a netdevice with a penalty. -/
theorem triangle_not_cheapest :
    ¬ forall (tables : Tables Text) (read : TableRead tables) (hexdigest : Text -> Text)
      (router updated : RouterObject Text) (sList dList : List Nat) (nx : Networkx),
      router.update hexdigest read.read = .ok updated ->
      (forall s, s ∈ sList -> s ∈ tables.rows.ndDict) ->
      (forall d, d ∈ dList -> d ∈ tables.rows.ndDict) -> nx.CorrectFor read.read.graph ->
        ReportsLeast nx updated read.read.graph sList dList false := by
  intro h
  have hknown := triangle_known 1
  have hnodes : forall idx, idx = 1 ∨ idx = 2 -> idx ∈ (triangleRead 1).read.graph.nodes :=
    fun idx hidx => (triangleRead 1).mem_nodes.mpr (hknown idx hidx)
  have hnx := (triangleRead 1).enumerated_correct
  have hreports := h (triangleTables 1) (triangleRead 1) id _ _ [1] [2] enumerated
    (triangleRouter_update 1) (fun s hs => hknown s (Or.inl (mem_singleton.mp hs)))
    (fun d hd => hknown d (Or.inr (mem_singleton.mp hd))) hnx
  rcases (TableRead.reportsLeast_iff (TableRead.updated_of_update (triangleRouter_update 1)) hnx
    (fun s hs => hnodes s (Or.inl (mem_singleton.mp hs)))
    (fun d hd => hnodes d (Or.inr (mem_singleton.mp hd)))).mp hreports 1 2
    mem_cons_self mem_cons_self [1, 2]
    ((triangle_simple triangle_paths).mpr mem_cons_self) with ⟨short, hfinds, hle⟩
  have hleast : LeastPath (triangleRead 1).read.graph.Link (triangleRead 1).read.graph.pathWeight 1 2
      short := hfinds
  have hshort := hleast.least [1, 3, 2] ((triangle_simple triangle_paths).mpr (by simp))
  rcases mem_pair.mp ((triangle_simple triangle_paths).mp hleast.simple) with rfl | rfl
  · exact absurd hshort (by decide +kernel)
  · exact absurd hle (by decide +kernel)

/-- Without penalties of netdevices the shortest path is the cheapest one. -/
theorem triangle_cheapest :
    ReportsLeast enumerated (triangleRouter 0) (triangleRead 0).read.graph [1] [2] false ∧
      (triangleRead 0).read.OneTightPath 1 2 := by
  have hknown := triangle_known 0
  rcases cheapest_route_iff (triangleRead 0) id _ _ (triangleRouter_update 0) [1] [2]
    (fun s hs => hknown s (Or.inl (mem_singleton.mp hs)))
    (fun d hd => hknown d (Or.inr (mem_singleton.mp hd))) with ⟨hall, _, hlabels⟩
  have hshort : LeastPath (triangleRead 0).read.graph.Link (triangleRead 0).read.graph.pathWeight 1 2
      [1, 3, 2] := by
    refine ⟨(triangle_simple triangle_paths_zero).mpr (by simp), fun other hother => ?_⟩
    rcases mem_pair.mp ((triangle_simple triangle_paths_zero).mp hother) with rfl | rfl
    · decide +kernel
    · exact le_rfl
  have hcheap : (triangleRead 0).read.SomeShortIsCheap 1 2 := by
    intro path hpath
    refine ⟨[1, 3, 2], hshort, ?_⟩
    rcases mem_pair.mp ((triangle_simple triangle_paths_zero).mp hpath) with rfl | rfl
    · decide +kernel
    · decide +kernel
  have hnonneg : (triangleTables 0).rows.NonNegative :=
    { netdevices := by decide
      peers := by decide }
  constructor
  · apply (hall enumerated (triangleRead 0).enumerated_correct).mpr
    intro s d hs hd
    rw [mem_singleton.mp hs, mem_singleton.mp hd]
    exact hcheap
  · exact (hlabels hnonneg 1 2 mem_cons_self mem_cons_self ⟨_, hshort.simple⟩).mp hcheap

end Icsw.Topology
