import Icsw.Foundation.ShortestPaths
import Icsw.Topology.RouterObject
import Mathlib.Order.Lattice.Nat

/-!
# Routes

The routes between two lists of netdevices are found by the weights of the graph and rated by the
penalties of the links and of the netdevices.
-/

namespace Icsw.Topology

open Foundation List

variable {Name : Type}

namespace Graph

def Link (graph : Graph) (a b : Nat) : Prop := (graph.weight s(a, b)).isSome = true

instance (graph : Graph) (a b : Nat) : Decidable (graph.Link a b) :=
  inferInstanceAs (Decidable ((graph.weight s(a, b)).isSome = true))

def weightOf (graph : Graph) (a b : Nat) : Int := (graph.weight s(a, b)).getD 0

def pathWeight (graph : Graph) (path : List Nat) : Int := alongLinks graph.weightOf path

end Graph

inductive SearchError where
  | networkXNoPath
  | raised (error : PyError)

structure Networkx where
  shortestPath : Graph -> Nat -> Nat -> Except SearchError (List Nat)
  allShortestPaths : Graph -> Nat -> Nat -> Except SearchError (List (List Nat))

/-- Between nodes of the graph the simple paths of least weight are found, or none where there is
no path. -/
structure Networkx.CorrectFor (nx : Networkx) (graph : Graph) : Prop where
  shortestPath : forall s d, s ∈ graph.nodes -> d ∈ graph.nodes ->
    (exists path, nx.shortestPath graph s d = .ok path ∧
      LeastPath graph.Link graph.pathWeight s d path) ∨
    (nx.shortestPath graph s d = .error .networkXNoPath ∧
      ¬ exists path, SimplePath graph.Link s d path)
  allShortestPaths : forall s d, s ∈ graph.nodes -> d ∈ graph.nodes ->
    (exists paths, nx.allShortestPaths graph s d = .ok paths ∧
      forall path, path ∈ paths <-> LeastPath graph.Link graph.pathWeight s d path) ∨
    (nx.allShortestPaths graph s d = .error .networkXNoPath ∧
      ¬ exists path, SimplePath graph.Link s d path)

/-- `held[key]` -/
def getItem {K V : Type} [DecidableEq K] (held : Dict K V) (key : K) : Except PyError V :=
  (held.lookup key).elim (.error .keyError) .ok

namespace RouterObject

def getPenalty (router : RouterObject Name) (inPath : List Nat) : Except PyError Int := do
  let links <- (inPath.zip inPath.tail).mapM fun pair => getItem router.dicts.peerDict pair
  let nds <- inPath.mapM fun entry => getItem router.ndDict entry
  return links.sum + (nds.map Netdevice.penalty).sum

end RouterObject

/-- What is returned for a path: the path or its ends, with or without the penalty. -/
inductive Route where
  | path (nodes : List Nat)
  | ends (first last : Nat)
  | penaltyPath (penalty : Int) (nodes : List Nat)
  | penaltyEnds (penalty : Int) (first last : Nat)
deriving DecidableEq

/-- `(cur_path[0], cur_path[-1])` -/
def endsOf (curPath : List Nat) : Except PyError (Nat × Nat) :=
  match curPath.head?, curPath.getLast? with
  | some first, some last => .ok (first, last)
  | _, _ => .error .indexError

/-- That there is no path is passed over. -/
def caughtNoPath (found : Except SearchError (List (List Nat))) : Except PyError (List (List Nat)) :=
  match found with
  | .ok paths => .ok paths
  | .error .networkXNoPath => .ok []
  | .error (.raised error) => .error error

def Networkx.pathsBetween (nx : Networkx) (graph : Graph) (onlyEp : Bool) (sNdev dNdev : Nat) :
    Except PyError (List (List Nat)) :=
  caughtNoPath <|
    if onlyEp = true then (nx.shortestPath graph sNdev dNdev).map fun path => [path]
    else nx.allShortestPaths graph sNdev dNdev

namespace RouterObject

def allPaths (nx : Networkx) (router : RouterObject Name) (onlyEp : Bool) (sList dList : List Nat) :
    Except PyError (List (List Nat)) := do
  let found <- (sList ×ˢ dList).mapM fun pair =>
    router.nx.elim (.error .attributeError) fun graph =>
      nx.pathsBetween graph onlyEp pair.1 pair.2
  return found.flatten

def routeOf (router : RouterObject Name) (onlyEp addPenalty : Bool) (curPath : List Nat) :
    Except PyError Route :=
  if addPenalty = true then do
    let penalty <- router.getPenalty curPath
    if onlyEp = true then
      let ends <- endsOf curPath
      return .penaltyEnds penalty ends.1 ends.2
    else return .penaltyPath penalty curPath
  else if onlyEp = true then do
    let ends <- endsOf curPath
    return .ends ends.1 ends.2
  else return .path curPath

/-- All routes between the netdevices of two lists. -/
def getNdlNdlPathes (nx : Networkx) (router : RouterObject Name) (sList dList : List Nat)
    (onlyEndpoints addPenalty : Bool) : Except PyError (List Route) := do
  let paths <- router.allPaths nx onlyEndpoints sList dList
  paths.mapM (router.routeOf onlyEndpoints addPenalty)

end RouterObject

/-!
## Searching paths

A search through all paths of a graph, and what any search that is correct for a graph finds
between two of its nodes.
-/

namespace Graph

variable (graph : Graph)

/-- The nodes in increasing order. -/
def nodeList : List Nat :=
  (range (graph.nodes.sup id + 1)).filter fun a => a ∈ graph.nodes

variable {graph : Graph}

theorem mem_nodeList {a : Nat} : a ∈ graph.nodeList <-> a ∈ graph.nodes := by
  unfold nodeList
  rw [mem_filter, decide_eq_true_iff, mem_range, and_iff_right_iff_imp]
  intro ha
  exact Nat.lt_succ_of_le (Finset.le_sup (f := id) ha)

theorem nodup_nodeList : graph.nodeList.Nodup := nodup_range.filter _

def simplePaths (s d : Nat) : List (List Nat) :=
  (nodupLists graph.nodeList).filter fun path =>
    path.head? = some s ∧ path.getLast? = some d ∧ path.IsChain graph.Link

def leastPaths (s d : Nat) : List (List Nat) :=
  (graph.simplePaths s d).filter fun path =>
    decide (forall other, other ∈ graph.simplePaths s d ->
      graph.pathWeight path ≤ graph.pathWeight other)

def Closed : Prop := forall a b, graph.Link a b -> b ∈ graph.nodes

theorem Closed.mem_nodeList (h : graph.Closed) {s d : Nat} (hs : s ∈ graph.nodes)
    {path : List Nat} (hpath : SimplePath graph.Link s d path) :
    forall a, a ∈ path -> a ∈ graph.nodeList := fun a ha =>
  Graph.mem_nodeList.mpr (hpath.forall_mem hs h a ha)

theorem Closed.exists_least (h : graph.Closed) {s d : Nat} (hs : s ∈ graph.nodes)
    {path : List Nat} (hpath : SimplePath graph.Link s d path) (cost : List Nat -> Int) :
    exists least, LeastPath graph.Link cost s d least :=
  hpath.exists_least graph.nodup_nodeList (fun _ hother => h.mem_nodeList hs hother) cost

theorem Closed.mem_simplePaths (h : graph.Closed) {s d : Nat}
    (hs : s ∈ graph.nodes) {path : List Nat} :
    path ∈ graph.simplePaths s d <-> SimplePath graph.Link s d path := by
  unfold simplePaths
  rw [mem_filter, decide_eq_true_iff, mem_nodupLists graph.nodup_nodeList]
  constructor
  · rintro ⟨⟨hnodup, _⟩, hhead, hlast, hlinked⟩
    exact { nodup := hnodup, head := hhead, last := hlast, linked := hlinked }
  · intro hpath
    exact ⟨⟨hpath.nodup, h.mem_nodeList hs hpath⟩, hpath.head, hpath.last, hpath.linked⟩

theorem Closed.mem_leastPaths (h : graph.Closed) {s d : Nat}
    (hs : s ∈ graph.nodes) {path : List Nat} :
    path ∈ graph.leastPaths s d <-> LeastPath graph.Link graph.pathWeight s d path := by
  unfold leastPaths
  rw [mem_filter, decide_eq_true_iff, h.mem_simplePaths hs]
  constructor
  · rintro ⟨hsimple, hleast⟩
    exact ⟨hsimple, fun other hother => hleast other ((h.mem_simplePaths hs).mpr hother)⟩
  · intro hleast
    exact ⟨hleast.simple, fun other hother => hleast.least other ((h.mem_simplePaths hs).mp hother)⟩

theorem Closed.leastPaths_eq_nil (h : graph.Closed) {s d : Nat}
    (hs : s ∈ graph.nodes) (hnil : graph.leastPaths s d = []) :
    ¬ exists path, SimplePath graph.Link s d path := by
  rintro ⟨path, hpath⟩
  rcases h.exists_least hs hpath graph.pathWeight with ⟨least, hleast⟩
  have hmem := (h.mem_leastPaths hs).mpr hleast
  rw [hnil] at hmem
  cases hmem

end Graph

/-- The library with a search through all paths. -/
def enumerated : Networkx where
  shortestPath := fun graph s d =>
    (graph.leastPaths s d).head?.elim (.error .networkXNoPath) .ok
  allShortestPaths := fun graph s d =>
    if graph.leastPaths s d = [] then .error .networkXNoPath else .ok (graph.leastPaths s d)

theorem enumerated_correct {graph : Graph} (h : graph.Closed) : enumerated.CorrectFor graph where
  shortestPath := by
    intro s d hs _
    show (exists path, (graph.leastPaths s d).head?.elim _ _ = _ ∧ _) ∨
      (graph.leastPaths s d).head?.elim _ _ = _ ∧ _
    cases hleast : graph.leastPaths s d with
    | nil => exact Or.inr ⟨rfl, h.leastPaths_eq_nil hs hleast⟩
    | cons first rest =>
      refine Or.inl ⟨first, rfl, (h.mem_leastPaths hs).mp ?_⟩
      rw [hleast]
      exact mem_cons_self
  allShortestPaths := by
    intro s d hs _
    show (exists paths, (if graph.leastPaths s d = [] then _ else _) = _ ∧ _) ∨
      (if graph.leastPaths s d = [] then _ else _) = _ ∧ _
    by_cases hnil : graph.leastPaths s d = []
    · exact Or.inr ⟨if_pos hnil, h.leastPaths_eq_nil hs hnil⟩
    · exact Or.inl ⟨_, if_neg hnil, fun path => h.mem_leastPaths hs⟩

/-- Any least path may be the one that is found. -/
def Networkx.finding (nx : Networkx) (s d : Nat) (path : List Nat) : Networkx :=
  { nx with
    shortestPath := fun graph s' d' =>
      if s' = s ∧ d' = d then .ok path else nx.shortestPath graph s' d' }

theorem Networkx.CorrectFor.finding {nx : Networkx} {graph : Graph} (h : nx.CorrectFor graph)
    {s d : Nat} {path : List Nat} (hpath : LeastPath graph.Link graph.pathWeight s d path) :
    (nx.finding s d path).CorrectFor graph where
  shortestPath := by
    intro s' d' hs hd
    show (exists found, (if s' = s ∧ d' = d then _ else _) = _ ∧ _) ∨
      (if s' = s ∧ d' = d then _ else _) = _ ∧ _
    by_cases hends : s' = s ∧ d' = d
    · rw [if_pos hends, hends.left, hends.right]
      exact Or.inl ⟨path, rfl, hpath⟩
    · rw [if_neg hends]
      exact h.shortestPath s' d' hs hd
  allShortestPaths := h.allShortestPaths

/-- One least path when only the ends are wanted, else all of them. -/
def Networkx.Finds (nx : Networkx) (graph : Graph) (onlyEp : Bool) (s d : Nat) (path : List Nat) :
    Prop :=
  if onlyEp = true then nx.shortestPath graph s d = .ok path
  else LeastPath graph.Link graph.pathWeight s d path

namespace Networkx

variable {nx : Networkx} {graph : Graph} {onlyEp : Bool} {s d : Nat} {path : List Nat}

section

variable (h : nx.CorrectFor graph)
include h

theorem CorrectFor.least (hs : s ∈ graph.nodes) (hd : d ∈ graph.nodes)
    (hfinds : nx.Finds graph onlyEp s d path) : LeastPath graph.Link graph.pathWeight s d path := by
  unfold Finds at hfinds
  cases onlyEp with
  | true =>
    rw [if_pos rfl] at hfinds
    rcases h.shortestPath s d hs hd with ⟨found, hfound, hleast⟩ | ⟨hnone, _⟩
    · rw [hfound] at hfinds
      injection hfinds with hfinds
      rwa [← hfinds]
    · rw [hnone] at hfinds
      cases hfinds
  | false => rwa [if_neg Bool.false_ne_true] at hfinds

theorem CorrectFor.pathsBetween_ok (hs : s ∈ graph.nodes) (hd : d ∈ graph.nodes) :
    exists paths, nx.pathsBetween graph onlyEp s d = .ok paths ∧
      forall path, path ∈ paths <-> nx.Finds graph onlyEp s d path := by
  unfold pathsBetween Finds
  cases onlyEp with
  | true =>
    simp only [if_pos]
    rcases h.shortestPath s d hs hd with ⟨found, hfound, _⟩ | ⟨hnone, _⟩
    · rw [hfound]
      refine ⟨[found], rfl, fun path => ?_⟩
      rw [mem_singleton, Except.ok.injEq]
      exact eq_comm
    · rw [hnone]
      exact ⟨[], rfl, fun path => iff_of_false not_mem_nil fun heq => by cases heq⟩
  | false =>
    simp only [if_neg Bool.false_ne_true]
    rcases h.allShortestPaths s d hs hd with ⟨paths, hpaths, hmem⟩ | ⟨hnone, hnoPath⟩
    · rw [hpaths]
      exact ⟨paths, rfl, hmem⟩
    · rw [hnone]
      exact ⟨[], rfl, fun path => iff_of_false not_mem_nil fun hleast =>
        hnoPath ⟨path, hleast.simple⟩⟩

theorem CorrectFor.exists_finds (hclosed : graph.Closed)
    (hs : s ∈ graph.nodes) (hd : d ∈ graph.nodes) (hpath : SimplePath graph.Link s d path) :
    exists found, nx.Finds graph onlyEp s d found := by
  unfold Finds
  cases onlyEp with
  | true =>
    simp only [if_pos]
    rcases h.shortestPath s d hs hd with ⟨found, hfound, _⟩ | ⟨_, hnoPath⟩
    · exact ⟨found, hfound⟩
    · exact absurd ⟨path, hpath⟩ hnoPath
  | false =>
    simp only [if_neg Bool.false_ne_true]
    exact hclosed.exists_least hs hpath graph.pathWeight

end

end Networkx

end Icsw.Topology
