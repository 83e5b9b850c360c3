import Icsw.Foundation.Separated
import Icsw.Topology.Tables

/-!
# The fingerprint

The bytes that the hash is fed tell the nodes and the edges apart, but they depend on the order and
the direction in which the edges come, and a graph without nodes is taken for no graph at all.
-/

namespace Icsw.Topology

open Foundation List

variable {Name : Type}

/-- The letters that begin a token. -/
def isTokenMark (c : Char) : Bool := decide (c = 'n') || decide (c = 'e')

theorem isTokenMark_of_code {c : Char} (hcode : c.toNat ≤ 57) : isTokenMark c = false := by
  have hn : c ≠ 'n' := fun heq => by
    rw [heq] at hcode
    exact absurd hcode (by decide)
  have he : c ≠ 'e' := fun heq => by
    rw [heq] at hcode
    exact absurd hcode (by decide)
  rw [isTokenMark, decide_eq_false hn, decide_eq_false he]
  rfl

/-- A token as its mark and what follows. -/
def nodePart (key : Nat) : Char × Text := ('n', formatInt key)

def edgePart (edge : (Nat × Nat) × Int) : Char × Text :=
  ('e', formatInt edge.1.1 ++ ',' :: (formatInt edge.1.2 ++ ',' :: formatInt edge.2))

theorem edgePart_char {edge : (Nat × Nat) × Int} {c : Char} (h : c ∈ (edgePart edge).2) :
    c.toNat ≤ 57 := by
  rcases mem_append.mp h with hfirst | hrest
  · exact (formatInt_char hfirst).right
  rcases mem_cons.mp hrest with heq | hrest
  · rw [heq]
    decide
  rcases mem_append.mp hrest with hsecond | hrest
  · exact (formatInt_char hsecond).right
  rcases mem_cons.mp hrest with heq | hthird
  · rw [heq]
    decide
  · exact (formatInt_char hthird).right

theorem formatInt_comma_inj {value value' : Int} {rest rest' : Text}
    (h : formatInt value ++ ',' :: rest = formatInt value' ++ ',' :: rest') :
    value = value' ∧ rest = rest' := by
  have hplain : forall other c, c ∈ formatInt other -> decide (c = ',') = false :=
    fun other c hc => decide_eq_false fun heq =>
      not_mem_formatInt (by decide) (by decide) (heq ▸ hc)
  have hcomma : forall (later : Text) (c : Char), c ∈ (',' :: later).head? ->
      decide (c = ',') = true := fun later c hc => by
    injection hc with hc
    exact decide_eq_true hc.symm
  rcases unmarked_append_inj (hplain value) (hplain value') (hcomma rest) (hcomma rest') h with
    ⟨hvalue, hrest⟩
  injection hrest with _ hrest
  exact ⟨formatInt_injective hvalue, hrest⟩

theorem nodePart_injective : Function.Injective nodePart := fun key key' h => by
  have hformat : formatInt key = formatInt key' := (Prod.mk.inj h).right
  exact Int.ofNat_inj.mp (formatInt_injective hformat)

theorem edgePart_injective : Function.Injective edgePart := fun edge edge' h => by
  rcases formatInt_comma_inj (Prod.mk.inj h).right with ⟨hsource, hrest⟩
  rcases formatInt_comma_inj hrest with ⟨hdest, hpenalty⟩
  exact Prod.ext (Prod.ext (Int.ofNat_inj.mp hsource) (Int.ofNat_inj.mp hdest))
    (formatInt_injective hpenalty)

theorem append_parts_inj {keys keys' : List Nat} {edges edges' : List ((Nat × Nat) × Int)}
    (h : keys.map nodePart ++ edges.map edgePart = keys'.map nodePart ++ edges'.map edgePart) :
    keys = keys' ∧ edges = edges' := by
  have hnode : forall items : List Nat, forall part, part ∈ items.map nodePart ->
      decide (part.1 = 'e') = false := fun items part hpart => by
    rcases mem_map.mp hpart with ⟨key, _, rfl⟩
    rfl
  have hedge : forall items : List ((Nat × Nat) × Int), forall part,
      part ∈ (items.map edgePart).head? -> decide (part.1 = 'e') = true := fun items part hpart => by
    rcases mem_map.mp (mem_of_mem_head? hpart) with ⟨edge, _, rfl⟩
    rfl
  rcases unmarked_append_inj (hnode keys) (hnode keys') (hedge edges) (hedge edges') h with
    ⟨hkeys, hedges⟩
  exact ⟨map_injective_iff.mpr nodePart_injective hkeys,
    map_injective_iff.mpr edgePart_injective hedges⟩

namespace Read

def parts (read : Read Name) : List (Char × Text) :=
  read.sortedKeys.map nodePart ++ read.simplePeers.map edgePart

theorem fed_eq (read : Read Name) : read.fed = read.parts.flatMap fun part => part.1 :: part.2 := by
  rw [parts, flatMap_append, flatMap_map, flatMap_map]
  rfl

theorem parts_marked {read : Read Name} {part : Char × Text} (h : part ∈ read.parts) :
    isTokenMark part.1 = true ∧ forall c, c ∈ part.2 -> isTokenMark c = false := by
  rcases mem_append.mp h with hnode | hedge
  · rcases mem_map.mp hnode with ⟨key, _, rfl⟩
    refine ⟨rfl, fun c hc => ?_⟩
    have hdigit : c ∈ formatInt key := hc
    exact isTokenMark_of_code (formatInt_char hdigit).right
  · rcases mem_map.mp hedge with ⟨edge, _, rfl⟩
    exact ⟨rfl, fun c hc => isTokenMark_of_code (edgePart_char hc)⟩

theorem fed_inj {read read' : Read Name} :
    read.fed = read'.fed <->
      read.sortedKeys = read'.sortedKeys ∧ read.simplePeers = read'.simplePeers := by
  constructor
  · intro h
    rw [fed_eq, fed_eq] at h
    exact append_parts_inj (marked_flatMap_inj (fun _ => parts_marked) (fun _ => parts_marked) h)
  · rintro ⟨hkeys, hedges⟩
    rw [fed, fed, hkeys, hedges]

theorem mem_sortedKeys {read : Read Name} {key : Nat} :
    key ∈ read.sortedKeys <-> key ∈ read.rows.ndDict :=
  (perm_insertionSort _ read.rows.ndDict.keys).mem_iff

theorem sortedKeys_eq_iff {read read' : Read Name} :
    read.sortedKeys = read'.sortedKeys <->
      forall key, key ∈ read.rows.ndDict <-> key ∈ read'.rows.ndDict := by
  constructor
  · intro h key
    rw [← mem_sortedKeys, h, mem_sortedKeys]
  · intro h
    have hsorted : forall other : Read Name,
        other.sortedKeys.Pairwise fun key later => key ≤ later := fun other =>
      pairwise_insertionSort _ other.rows.ndDict.keys
    have hnodup : forall other : Read Name, other.sortedKeys.Nodup := fun other =>
      (perm_insertionSort _ other.rows.ndDict.keys).nodup_iff.mpr other.rows.ndDict.keys_nodup
    have hperm : read.sortedKeys.Perm read'.sortedKeys :=
      (perm_ext_iff_of_nodup (hnodup read) (hnodup read')).mpr fun key => by
        rw [mem_sortedKeys, mem_sortedKeys]
        exact h key
    exact Perm.eq_of_pairwise (fun first second _ _ hle hge => le_antisymm hle hge)
      (hsorted read) (hsorted read') hperm

theorem graph_eq_of_fed {read read' : Read Name} (h : read.fed = read'.fed) :
    read.graph = read'.graph := by
  rcases fed_inj.mp h with ⟨hkeys, hedges⟩
  have hnodes : read.rows.ndDict.keys.toFinset = read'.rows.ndDict.keys.toFinset := by
    ext key
    rw [mem_toFinset, mem_toFinset, ← AList.mem_keys, ← AList.mem_keys]
    exact sortedKeys_eq_iff.mp hkeys key
  unfold graph Graph.addNodesFrom
  rw [hnodes, hedges]

end Read

variable [LinearOrder Name]

/-- Two updates, one after the other: the same rows have the same fingerprint, other graphs feed
other bytes to the hash, and the change that is reported is one of the graph. -/
def FingerprintRight (hexdigest : Text -> Text) {tables tables' : Tables Name}
    (first : TableRead tables) (second : TableRead tables') : Prop :=
  forall router : RouterObject Name, exists before after,
    router.update hexdigest first.read = .ok before ∧
    before.update hexdigest second.read = .ok after ∧
    (SameRows tables.rows tables'.rows ->
      before.fingerprint hexdigest = after.fingerprint hexdigest) ∧
    (before.nx ≠ after.nx -> before.fp ≠ after.fp) ∧
    (after.fingerprintChanged hexdigest = true <-> before.nx ≠ after.nx)

/-- Where the rows or the graphs are the same, the edges come in the same order and direction, and
a graph that stays the same has nodes. -/
structure SameOrder {tables tables' : Tables Name} (first : TableRead tables)
    (second : TableRead tables') : Prop where
  ofRows : SameRows tables.rows tables'.rows -> first.read.simplePeers = second.read.simplePeers
  ofGraph : first.read.graph = second.read.graph ->
    first.read.simplePeers = second.read.simplePeers
  nodes : first.read.graph = second.read.graph -> exists nd, nd ∈ tables.rows.allNds

/-- No two different links. -/
def Tables.OneLink (tables : Tables Name) : Prop :=
  forall link other, tables.rows.Link link -> tables.rows.Link other -> link = other

def SameFingerprint (hexdigest : Text -> Text) {tables : Tables Name}
    (first second : TableRead tables) : Prop :=
  forall router : RouterObject Name, exists result result',
    router.update hexdigest first.read = .ok result ∧
    router.update hexdigest second.read = .ok result' ∧
    result.fingerprint hexdigest = result'.fingerprint hexdigest

section Updates

variable {hexdigest : Text -> Text} {tables tables' : Tables Name} {first : TableRead tables}
  {second : TableRead tables'}

theorem nodes_eq_empty_iff : first.read.graph.nodes = ∅ <-> ¬ exists nd, nd ∈ tables.rows.allNds := by
  rw [Finset.eq_empty_iff_forall_notMem, not_exists]
  constructor
  · intro h nd hnd
    exact h nd.idx (first.mem_nodes.mpr (Rows.mem_ndDict.mpr ⟨nd, hnd, rfl⟩))
  · intro h key hkey
    rcases Rows.mem_ndDict.mp (first.mem_nodes.mp hkey) with ⟨nd, hnd, _⟩
    exact h nd hnd

theorem fingerprintRight_iff (hinj : Function.Injective hexdigest)
    (hdigits : forall fed, hexdigest fed ≠ "N/A".toList) :
    FingerprintRight hexdigest first second <->
      (SameRows tables.rows tables'.rows -> first.read.fed = second.read.fed) ∧
      (first.read.graph ≠ second.read.graph -> first.read.fed ≠ second.read.fed) ∧
      ((first.read.graph.nodes = ∅ ∨ first.read.fed ≠ second.read.fed) <->
        first.read.graph ≠ second.read.graph) := by
  have hchanged : forall fed fed' : Text, forall nodes : Finset Nat,
      decide (hexdigest fed' ≠
        if decide (nodes ≠ ∅) = true then hexdigest fed else "N/A".toList) = true <->
      nodes = ∅ ∨ fed ≠ fed' := by
    intro fed fed' nodes
    rw [decide_eq_true_iff]
    by_cases hnodes : nodes = ∅
    · rw [if_neg (by simpa using hnodes)]
      exact iff_of_true (hdigits fed') (Or.inl hnodes)
    · rw [if_pos (decide_eq_true hnodes), or_iff_right hnodes, Ne, Ne, hinj.eq_iff, eq_comm]
  unfold FingerprintRight
  simp only [RouterObject.update_eq]
  constructor
  · intro h
    rcases h RouterObject.initial with ⟨before, after, hbefore, hafter, hrows, hapart, hreport⟩
    injection hbefore with hbefore
    subst hbefore
    injection hafter with hafter
    subst hafter
    have hgraphs : some first.read.graph ≠ some second.read.graph <->
        first.read.graph ≠ second.read.graph := by
      rw [Ne, Option.some_inj]
    refine ⟨fun hsame => hinj (hrows hsame), fun hne => hapart (hgraphs.mpr hne), ?_⟩
    rw [← hgraphs, ← hreport]
    exact (hchanged _ _ _).symm
  · rintro ⟨hrows, hapart, hreport⟩ router
    refine ⟨_, _, rfl, rfl, fun hsame => congrArg hexdigest (hrows hsame), ?_, ?_⟩
    · intro hne
      exact hapart fun heq => hne (congrArg some heq)
    · have hgraphs : some first.read.graph ≠ some second.read.graph <->
          first.read.graph ≠ second.read.graph := by
        rw [Ne, Option.some_inj]
      show _ <-> some first.read.graph ≠ some second.read.graph
      rw [hgraphs, ← hreport]
      exact hchanged _ _ _

theorem fed_eq_of_nodes (hnodes : forall key, key ∈ tables.rows.ndDict <-> key ∈ tables'.rows.ndDict)
    (hedges : first.read.simplePeers = second.read.simplePeers) :
    first.read.fed = second.read.fed := by
  refine Read.fed_inj.mpr ⟨Read.sortedKeys_eq_iff.mpr fun key => ?_, hedges⟩
  rw [Rows.mem_ndDict_congr first.sameRows, Rows.mem_ndDict_congr second.sameRows]
  exact hnodes key

theorem fingerprintRight_iff_sameOrder (hinj : Function.Injective hexdigest)
    (hdigits : forall fed, hexdigest fed ≠ "N/A".toList) :
    FingerprintRight hexdigest first second <-> SameOrder first second := by
  rw [fingerprintRight_iff hinj hdigits]
  constructor
  · rintro ⟨hrows, _, hreport⟩
    have hsame : first.read.graph = second.read.graph ->
        first.read.graph.nodes ≠ ∅ ∧ first.read.fed = second.read.fed := fun hgraph => by
      have hquiet := mt hreport.mp (not_not.mpr hgraph)
      rw [not_or, not_not] at hquiet
      exact hquiet
    exact
      { ofRows := fun h => (Read.fed_inj.mp (hrows h)).right
        ofGraph := fun h => (Read.fed_inj.mp (hsame h).right).right
        nodes := fun h => not_not.mp (mt nodes_eq_empty_iff.mpr (hsame h).left) }
  · intro h
    have hapart : first.read.graph ≠ second.read.graph -> first.read.fed ≠ second.read.fed :=
      fun hne heq => hne (Read.graph_eq_of_fed heq)
    refine ⟨fun hrows => ?_, hapart, ?_, fun hne => Or.inr (hapart hne)⟩
    · exact fed_eq_of_nodes (fun _ => Rows.mem_ndDict_congr hrows) (h.ofRows hrows)
    · intro hreport hgraph
      have hnodes : forall key, key ∈ tables.rows.ndDict <-> key ∈ tables'.rows.ndDict := fun key => by
        rw [← first.mem_nodes, hgraph, second.mem_nodes]
      rcases hreport with hempty | hne
      · exact nodes_eq_empty_iff.mp hempty (h.nodes hgraph)
      · exact hne (fed_eq_of_nodes hnodes (h.ofGraph hgraph))

theorem eq_singleton {α : Type} {items : List α} {item : α} (hnodup : items.Nodup)
    (hall : forall other, other ∈ items -> other = item) (hne : items ≠ []) : items = [item] := by
  rcases exists_mem_of_ne_nil items hne with ⟨other, hother⟩
  apply perm_singleton.mp
  rw [perm_ext_iff_of_nodup hnodup (nodup_singleton item)]
  intro next
  rw [mem_singleton]
  exact ⟨hall next, fun heq => heq ▸ hall other hother ▸ hother⟩

theorem simplePeers_eq_of_link (hone : tables.OneLink) {link : (Nat × Nat) × Int}
    (h : tables.rows.Link link) : first.read.simplePeers = [link] := by
  apply eq_singleton (Nodup.of_map _ first.nodup_simplePeers)
  · intro other hother
    exact hone other link (first.link_of_mem hother) h
  · rcases first.mem_of_link h with ⟨penalty, hmem⟩
    exact ne_nil_of_mem hmem

theorem simplePeers_eq_of_oneLink (hone : tables.OneLink)
    (hlinks : forall link, tables.rows.Link link <-> tables'.rows.Link link) :
    first.read.simplePeers = second.read.simplePeers := by
  by_cases hlink : exists link, tables.rows.Link link
  · rcases hlink with ⟨link, hlink⟩
    have hone' : tables'.OneLink := fun link other h hother =>
      hone link other ((hlinks link).mpr h) ((hlinks other).mpr hother)
    rw [simplePeers_eq_of_link hone hlink, simplePeers_eq_of_link hone' ((hlinks link).mp hlink)]
  · have hnil : forall read : TableRead tables, read.read.simplePeers = [] := fun read =>
      eq_nil_iff_forall_not_mem.mpr fun link hmem => hlink ⟨link, read.link_of_mem hmem⟩
    have hnil' : second.read.simplePeers = [] :=
      eq_nil_iff_forall_not_mem.mpr fun link hmem =>
        hlink ⟨link, (hlinks link).mpr (second.link_of_mem hmem)⟩
    rw [hnil first, hnil']

end Updates

section Contents

variable {hexdigest : Text -> Text} {tables : Tables Name}

theorem oneLink_of_simplePeers (h : forall first second : TableRead tables,
    first.read.simplePeers = second.read.simplePeers) : tables.OneLink := by
  intro link other hlink hother
  rcases TableRead.exists_mem link hlink with ⟨read, hmem⟩
  rcases TableRead.exists_mem other hother with ⟨read', hmem'⟩
  rcases TableRead.exists_first hmem with ⟨first, _, rest, hfirst⟩
  rcases TableRead.exists_first hmem' with ⟨second, _, rest', hsecond⟩
  have heq := h first second
  rw [hfirst, hsecond] at heq
  exact (cons.inj heq).left

theorem sameFingerprint_iff (hinj : Function.Injective hexdigest)
    {first second : TableRead tables} :
    SameFingerprint hexdigest first second <->
      first.read.simplePeers = second.read.simplePeers := by
  unfold SameFingerprint
  simp only [RouterObject.update_eq]
  constructor
  · intro h
    rcases h RouterObject.initial with ⟨result, result', hresult, hresult', heq⟩
    injection hresult with hresult
    subst hresult
    injection hresult' with hresult'
    subst hresult'
    exact (Read.fed_inj.mp (hinj heq)).right
  · intro h router
    exact ⟨_, _, rfl, rfl, congrArg hexdigest (fed_eq_of_nodes (fun _ => Iff.rfl) h)⟩

theorem oneFingerprint_iff (hinj : Function.Injective hexdigest) :
    (forall first second : TableRead tables, SameFingerprint hexdigest first second) <->
      tables.OneLink := by
  simp only [sameFingerprint_iff hinj]
  exact ⟨oneLink_of_simplePeers, fun hone first second =>
    simplePeers_eq_of_oneLink hone fun _ => Iff.rfl⟩

end Contents
end Icsw.Topology
