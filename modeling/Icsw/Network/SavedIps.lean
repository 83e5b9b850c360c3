import Icsw.Foundation.Dict
import Icsw.Foundation.Run
import Icsw.Network.NetIp

/-!
# Saved addresses lie in their networks

Whatever network an address is saved with, the address matches it, and a network that is found for
it has the longest prefix..  Addresses that have to be unique are compared as texts.
-/

namespace Icsw.Network

open Foundation List

def PrefixLength (nw : NetworkRow) (bits : Nat) : Prop :=
  exists mask, Spells nw.netmask mask ∧ bits ≤ 32 ∧ mask.number = 2 ^ 32 - 2 ^ (32 - bits)

structure NetworkValid (nw : NetworkRow) : Prop where
  bits : exists bits, PrefixLength nw bits
  network : exists network mask, Spells nw.network network ∧ Spells nw.netmask mask ∧
    network.both mask = network

structure NetworksValid (tables : NetIpTables) : Prop where
  valid : forall nw, nw ∈ tables.networks -> NetworkValid nw
  nodup : (tables.networks.map NetworkRow.pk).Nodup

def MatchesNetwork (text : Text) (nw : NetworkRow) : Prop :=
  exists ip, Ipv4.ofText text = .ok ip ∧ networkMatches ip nw = .ok true

structure LiesIn (text : Text) (nw : NetworkRow) : Prop where
  found : MatchesNetwork text nw
  place : forall ip network mask, Spells text ip -> Spells nw.network network ->
    Spells nw.netmask mask -> ip.both mask = network

def SameIp (text other : Text) : Prop :=
  exists ip, Ipv4.ofText text = .ok ip ∧ Ipv4.ofText other = .ok ip

structure Kept (tables : NetIpTables) : Prop where
  located : forall row, row ∈ tables.netIps -> exists nw, nw ∈ tables.networks ∧
    nw.pk = row.networkId ∧ LiesIn row.ip nw
  unique : forall nw, nw ∈ tables.networks -> nw.enforceUniqueIps = true ->
    forall row other, row ∈ tables.netIps -> other ∈ tables.netIps -> row.networkId = nw.pk ->
      other.networkId = nw.pk -> SameIp row.ip other.ip -> row = other

/-- The network is missing, or the address does not match it. -/
def Misplaced (tables : NetIpTables) (inst : NetIpInstance) : Prop :=
  inst.networkId = none ∨ exists given, given ∈ tables.networks ∧
    inst.networkId = some given.pk ∧ ¬ MatchesNetwork inst.ip given

section Ranked

variable (rank : NetworkRow -> Nat)

def ChosenLongest (tables : NetIpTables) (inst : NetIpInstance) : Prop :=
  forall nw next, saveNetIp rank inst tables = .ok nw next -> LiesIn inst.ip nw ∧
    (Misplaced tables inst -> forall other, other ∈ next.networks -> MatchesNetwork inst.ip other ->
      forall bits most, PrefixLength other bits -> PrefixLength nw most -> bits ≤ most)

/-- What is asked of the saved addresses and of the next one. -/
def AddressesKept (tables : NetIpTables) : Prop :=
  Kept tables ∧ forall inst, ChosenLongest rank tables inst

/-- The network of an instance: the one that is given, or else the first one that is found. -/
def Belongs (tables : NetIpTables) (inst : NetIpInstance) (nw : NetworkRow) : Prop :=
  MatchesNetwork inst.ip nw ∧
    (inst.networkId = some nw.pk ∨
      Misplaced tables inst ∧ exists ip bits rest, Ipv4.ofText inst.ip = .ok ip ∧
        findMatchingNetwork rank ip tables.networks = .ok ((bits, nw) :: rest))

/-- Another row of a network with unique addresses has the same address in another spelling. -/
def Respelled (tables : NetIpTables) (inst : NetIpInstance) : Prop :=
  exists nw row, nw ∈ tables.networks ∧ nw.enforceUniqueIps = true ∧ Belongs rank tables inst nw ∧
    row ∈ others inst tables.netIps ∧ row.networkId = nw.pk ∧ row.ip ≠ inst.ip ∧
      SameIp row.ip inst.ip

def KeepsSpelling (tables : NetIpTables) : NetIpRequest -> Prop
  | .save inst => ¬ Respelled rank tables inst
  | .delete _ => True

def MatchingEntry (ipvAddr : Ipv4) (entry : Int × NetworkRow) : Prop :=
  networkMatches ipvAddr entry.snd = .ok true ∧
    exists mask, Ipv4.ofText entry.snd.netmask = .ok mask ∧ entry.fst = mask.netmaskBits

theorem matchList_mem {ipvAddr : Ipv4} {networks : List NetworkRow}
    {entries : List (Int × NetworkRow)} (h : matchList ipvAddr networks = .ok entries) :
    (forall entry, entry ∈ entries <-> entry.snd ∈ networks ∧ MatchingEntry ipvAddr entry) ∧
      forall nw, nw ∈ networks -> exists matching, networkMatches ipvAddr nw = .ok matching := by
  induction networks generalizing entries with
  | nil =>
    cases h
    simp
  | cons nw rest ih =>
    rcases exists_of_bind h with ⟨network, hnetwork, h⟩
    rcases exists_of_bind h with ⟨netmask, hnetmask, h⟩
    rcases exists_of_bind h with ⟨masked, hmasked, h⟩
    rcases exists_of_bind h with ⟨later, hlater, h⟩
    have hmatches : networkMatches ipvAddr nw = .ok (masked.eq network) :=
      bind_eq_ok hnetmask (bind_eq_ok hmasked (bind_eq_ok hnetwork rfl))
    rcases ih hlater with ⟨hmem, hread⟩
    constructor
    · intro entry
      rw [← Except.ok.inj h, mem_cons]
      split
      · next hequal =>
          rw [mem_cons, hmem]
          constructor
          · rintro (rfl | ⟨hrest, hentry⟩)
            · exact ⟨Or.inl rfl, hmatches.trans (congrArg Except.ok hequal), netmask, hnetmask, rfl⟩
            · exact ⟨Or.inr hrest, hentry⟩
          · rintro ⟨hsame | hrest, hentry⟩
            · rcases hentry with ⟨_, mask, hmask, hbits⟩
              rw [hsame, hnetmask] at hmask
              rw [← Except.ok.inj hmask] at hbits
              exact Or.inl (Prod.ext hbits hsame)
            · exact Or.inr ⟨hrest, hentry⟩
      · next hdiffers =>
          rw [hmem]
          constructor
          · rintro ⟨hrest, hentry⟩
            exact ⟨Or.inr hrest, hentry⟩
          · rintro ⟨hsame | hrest, hentry⟩
            · have hfound := hentry.left
              rw [hsame, hmatches] at hfound
              exact absurd (Except.ok.inj hfound) hdiffers
            · exact ⟨hrest, hentry⟩
    · intro other hother
      rcases mem_cons.mp hother with rfl | hrest
      · exact ⟨_, hmatches⟩
      · exact hread other hrest

instance before_total : Std.Total (Before rank) where
  total entry other := by
    unfold Before
    omega

instance before_trans : IsTrans (Int × NetworkRow) (Before rank) where
  trans entry other last h h' := by
    unfold Before at *
    omega

variable {rest : List (Int × NetworkRow)} {first : Int × NetworkRow}

theorem findMatchingNetwork_first {ipvAddr : Ipv4} {networks : List NetworkRow}
    (h : findMatchingNetwork rank ipvAddr networks = .ok (first :: rest)) :
    first.snd ∈ networks ∧ MatchingEntry ipvAddr first ∧
      forall entry, entry.snd ∈ networks -> MatchingEntry ipvAddr entry -> entry.fst ≤ first.fst := by
  rcases exists_of_bind h with ⟨entries, hentries, hsorted⟩
  have hsorted := Except.ok.inj hsorted
  have hmem : forall entry, entry ∈ first :: rest <->
      entry.snd ∈ networks ∧ MatchingEntry ipvAddr entry := by
    intro entry
    rw [← hsorted, mem_insertionSort]
    exact (matchList_mem hentries).left entry
  have hpairwise : (first :: rest).Pairwise (Before rank) :=
    hsorted ▸ pairwise_insertionSort (Before rank) entries
  rcases (hmem first).mp mem_cons_self with ⟨hin, hfirst⟩
  refine ⟨hin, hfirst, fun entry hentry hmatching => ?_⟩
  rcases mem_cons.mp ((hmem entry).mpr ⟨hentry, hmatching⟩) with rfl | hrest
  · exact le_rfl
  · have hbefore := (pairwise_cons.mp hpairwise).left entry hrest
    unfold Before at hbefore
    omega

variable {nw : NetworkRow}

theorem findMatchingNetwork_nil {ipvAddr : Ipv4} {networks : List NetworkRow}
    (h : findMatchingNetwork rank ipvAddr networks = .ok [])
    (hnw : nw ∈ networks) : networkMatches ipvAddr nw = .ok false := by
  rcases exists_of_bind h with ⟨entries, hentries, hsorted⟩
  have hnone : entries = [] :=
    eq_nil_of_length_eq_zero
      ((length_insertionSort (Before rank) entries).symm.trans
        (congrArg length (Except.ok.inj hsorted)))
  rcases (matchList_mem hentries).right nw hnw with ⟨matching, hmatching⟩
  cases matching with
  | false => exact hmatching
  | true =>
    rcases exists_of_bind hmatching with ⟨mask, hmask, _⟩
    have hin := ((matchList_mem hentries).left (mask.netmaskBits, nw)).mpr
      ⟨hnw, hmatching, mask, hmask, rfl⟩
    rw [hnone] at hin
    cases hin

/-- The network for all addresses has been added. -/
structure Created (tables : NetIpTables) (nw : NetworkRow) (next : NetIpTables) : Prop where
  networks : next = { tables with networks := tables.networks ++ [nw] }
  fresh : nw.pk ∉ tables.networks.map NetworkRow.pk
  free : nw.enforceUniqueIps = false
  valid : NetworkValid nw

/-- At most the network for all addresses has been added. -/
def Grown (tables next : NetIpTables) : Prop := next = tables ∨ exists nw, Created tables nw next

theorem freshKey_not_mem (keys : List Nat) : freshKey keys ∉ keys := by
  have hbound : forall key, key ∈ keys -> key ≤ keys.foldr max 0 := by
    induction keys with
    | nil => exact fun _ hkey => absurd hkey not_mem_nil
    | cons first rest ih =>
      rw [foldr_cons, forall_mem_cons]
      exact ⟨Nat.le_max_left _ _, fun key hkey => (ih key hkey).trans (Nat.le_max_right _ _)⟩
  intro hmem
  have := hbound _ hmem
  unfold freshKey at this
  omega

theorem networkValid_default (pk : Nat) :
    NetworkValid ⟨pk, "all".toList, "0.0.0.0".toList, "0.0.0.0".toList, false⟩ := by
  have hzero : Spells "0.0.0.0".toList ⟨0, 0, 0, 0⟩ := by
    unfold Spells
    rfl
  constructor
  case bits => exact ⟨0, _, hzero, by decide, rfl⟩
  case network => exact ⟨_, _, hzero, hzero, rfl⟩

theorem satisfies_createDefault (tables : NetIpTables) :
    Satisfies (fun state => state = tables) createDefault (Created tables)
      (fun state => state = tables) := by
  have hsaved : networkPreSave defaultNetwork = .ok defaultNetwork := rfl
  unfold createDefault
  apply satisfies_get_bind
  rintro _ rfl
  split
  · apply satisfies_throw
    exact fun _ h => h
  · apply satisfies_computed_bind
    · exact fun _ h => h
    · intro saved hnew
      rw [← Except.ok.inj (hsaved.symm.trans hnew)]
      split
      · apply satisfies_throw
        exact fun _ h => h
      · rintro _ rfl
        exact ⟨rfl, freshKey_not_mem _, rfl, networkValid_default _⟩

variable {tables : NetIpTables} {inst : NetIpInstance} {ipvAddr : Ipv4}

/-- Where the network comes from that is looked at first. -/
inductive Current (tables : NetIpTables) (inst : NetIpInstance) (ipvAddr : Ipv4) :
    NetworkRow -> NetIpTables -> Prop
  | given (nw : NetworkRow) (hnw : nw ∈ tables.networks) (hid : inst.networkId = some nw.pk) :
      Current tables inst ipvAddr nw tables
  | found (first : Int × NetworkRow) (rest : List (Int × NetworkRow))
      (hid : inst.networkId = none)
      (hfound : findMatchingNetwork rank ipvAddr tables.networks = .ok (first :: rest)) :
      Current tables inst ipvAddr first.snd tables
  | present (nw : NetworkRow) (hnw : nw ∈ tables.networks) (hid : inst.networkId = none)
      (hnone : findMatchingNetwork rank ipvAddr tables.networks = .ok []) :
      Current tables inst ipvAddr nw tables
  | created (nw : NetworkRow) (next : NetIpTables) (hid : inst.networkId = none)
      (hnone : findMatchingNetwork rank ipvAddr tables.networks = .ok [])
      (hcreated : Created tables nw next) : Current tables inst ipvAddr nw next

theorem satisfies_currentNetwork :
    Satisfies (fun state => state = tables) (currentNetwork rank inst ipvAddr)
      (Current rank tables inst ipvAddr) (fun state => state = tables) := by
  unfold currentNetwork
  apply satisfies_get_bind
  rintro _ rfl
  split
  · next pk hid =>
      split
      · next nw hfind =>
          apply satisfies_pure
          rintro _ rfl
          have hsame := find?_some hfind
          have hpk : nw.pk = pk := of_decide_eq_true hsame
          exact .given nw (mem_of_find?_eq_some hfind) (hpk ▸ hid)
      · apply satisfies_throw
        exact fun _ h => h
  · next hid =>
      apply satisfies_computed_bind
      · exact fun _ h => h
      · intro entries hentries
        split
        · next first rest =>
            apply satisfies_pure
            rintro _ rfl
            exact .found first rest hid hentries
        · split
          · unfold getDefault
            apply satisfies_get_bind
            rintro _ rfl
            split
            · exact (satisfies_createDefault _).mono (fun _ h => h)
                fun nw next hcreated => .created nw next hid hentries hcreated
            · next nw hfilter =>
                apply satisfies_pure
                rintro _ rfl
                have hnw : nw ∈ filter _ _ := hfilter ▸ mem_singleton.mpr rfl
                exact .present nw (mem_filter.mp hnw).left hid hentries
            · apply satisfies_throw
              exact fun _ h => h
          · apply satisfies_throw
            exact fun _ h => h

/-- The network that is given to it, or the first one that is found. -/
def Matched (tables : NetIpTables) (ipvAddr : Ipv4) (nw chosen : NetworkRow) : Prop :=
  (networkMatches ipvAddr nw = .ok true ∧ chosen = nw) ∨
    networkMatches ipvAddr nw = .ok false ∧ exists bits rest,
      findMatchingNetwork rank ipvAddr tables.networks = .ok ((bits, chosen) :: rest)

theorem satisfies_matchingNetwork (tables : NetIpTables) (inst : NetIpInstance) (ipvAddr : Ipv4)
    (nw : NetworkRow) :
    Satisfies (fun state => state = tables) (matchingNetwork rank inst ipvAddr nw)
      (fun chosen state => Matched rank tables ipvAddr nw chosen ∧ state = tables)
      (fun state => state = tables) := by
  unfold matchingNetwork
  apply satisfies_get_bind
  rintro _ rfl
  apply satisfies_computed_bind
  · exact fun _ h => h
  · intro matching hmatching
    split
    · next htrue =>
        apply satisfies_pure
        exact fun _ h => ⟨Or.inl ⟨htrue ▸ hmatching, rfl⟩, h⟩
    · next hfalse =>
        apply satisfies_computed_bind
        · exact fun _ h => h
        · intro entries hentries
          split
          · next first rest =>
              apply satisfies_pure
              intro state h
              have hno : matching = false := eq_false_of_ne_true hfalse
              exact ⟨Or.inr ⟨hno ▸ hmatching, first.fst, rest, hentries⟩, h⟩
          · apply satisfies_throw
            exact fun _ h => h

structure Accepted (tables : NetIpTables) (inst : NetIpInstance) (ipvAddr : Ipv4) (nw : NetworkRow)
    (next : NetIpTables) : Prop where
  grown : Grown tables next
  member : nw ∈ next.networks
  found : networkMatches ipvAddr nw = .ok true
  enforced : nw.enforceUniqueIps = true -> Belongs rank tables inst nw
  longest : Misplaced tables inst -> forall entry bits, entry.snd ∈ next.networks ->
    MatchingEntry ipvAddr entry -> MatchingEntry ipvAddr (bits, nw) -> entry.fst ≤ bits
  device : checkDevice inst nw next = .ok ()
  unique : checkEnforced inst nw next = .ok ()

theorem matchesNetwork_iff (hip : Ipv4.ofText inst.ip = .ok ipvAddr) (nw : NetworkRow) :
    MatchesNetwork inst.ip nw <-> networkMatches ipvAddr nw = .ok true := by
  constructor
  · rintro ⟨ip, hread, hmatches⟩
    rw [Except.ok.inj (hip.symm.trans hread)]
    exact hmatches
  · exact fun hmatches => ⟨ipvAddr, hip, hmatches⟩

theorem not_true_of_false (h : networkMatches ipvAddr nw = .ok false) :
    networkMatches ipvAddr nw ≠ .ok true := by
  rw [h]
  exact fun hsame => Bool.false_ne_true (Except.ok.inj hsame)

theorem MatchingEntry.bits_eq {bits most : Int}
    (h : MatchingEntry ipvAddr (bits, nw)) (hmost : MatchingEntry ipvAddr (most, nw)) :
    bits = most := by
  rcases h with ⟨_, mask, hmask, hbits⟩
  rcases hmost with ⟨_, other, hother, hmost⟩
  rw [Except.ok.inj (hmask.symm.trans hother)] at hbits
  exact hbits.trans hmost.symm

theorem row_eq_of_pk (hvalid : NetworksValid tables) {nw other : NetworkRow}
    (hnw : nw ∈ tables.networks) (hother : other ∈ tables.networks) (hpk : nw.pk = other.pk) :
    nw = other := inj_on_of_nodup_map hvalid.nodup hnw hother hpk

theorem longest_of_first
    (hfound : findMatchingNetwork rank ipvAddr tables.networks = .ok (first :: rest))
    {entry : Int × NetworkRow} {bits : Int} (hentry : entry.snd ∈ tables.networks)
    (hmatching : MatchingEntry ipvAddr entry) (hbits : MatchingEntry ipvAddr (bits, first.snd)) :
    entry.fst ≤ bits := by
  rcases findMatchingNetwork_first rank hfound with ⟨_, hfirst, hlongest⟩
  rw [hbits.bits_eq hfirst]
  exact hlongest entry hentry hmatching

variable {between : NetIpTables}

/-- What is found belongs to the instance, unless it has been created. -/
theorem Current.accepted (hvalid : NetworksValid tables)
    (hip : Ipv4.ofText inst.ip = .ok ipvAddr) {current chosen : NetworkRow}
    (hcurrent : Current rank tables inst ipvAddr current between)
    (hmatched : Matched rank between ipvAddr current chosen)
    (hdevice : checkDevice inst chosen between = .ok ())
    (hunique : checkEnforced inst chosen between = .ok ()) :
    Accepted rank tables inst ipvAddr chosen between := by
  cases hcurrent with
  | given nw hnw hid =>
    rcases hmatched with ⟨hmatches, rfl⟩ | ⟨hfails, bits, rest, hfound⟩
    · refine ⟨Or.inl rfl, hnw, hmatches, fun _ => ?_, fun hmisplaced => ?_, hdevice, hunique⟩
      · exact ⟨(matchesNetwork_iff hip chosen).mpr hmatches, Or.inl hid⟩
      · rcases hmisplaced with hnone | ⟨given, hgiven, hsame, hnot⟩
        · rw [hid] at hnone
          cases hnone
        · have hpk : given.pk = chosen.pk := Option.some.inj (hsame.symm.trans hid)
          rw [row_eq_of_pk hvalid hgiven hnw hpk] at hnot
          exact absurd ((matchesNetwork_iff hip chosen).mpr hmatches) hnot
    · have hmisplaced : Misplaced tables inst := by
        refine Or.inr ⟨current, hnw, hid, fun h => ?_⟩
        exact not_true_of_false hfails ((matchesNetwork_iff hip current).mp h)
      rcases findMatchingNetwork_first rank hfound with ⟨hin, hfirst, _⟩
      refine ⟨Or.inl rfl, hin, hfirst.left, fun _ => ?_, fun _ entry most hentry hmatching hmost =>
        longest_of_first rank hfound hentry hmatching hmost, hdevice, hunique⟩
      exact ⟨(matchesNetwork_iff hip chosen).mpr hfirst.left,
        Or.inr ⟨hmisplaced, ipvAddr, bits, rest, hip, hfound⟩⟩
  | found first rest hid hfound =>
    rcases findMatchingNetwork_first rank hfound with ⟨hin, hfirst, _⟩
    rcases hmatched with ⟨hmatches, rfl⟩ | ⟨hfails, _⟩
    · refine ⟨Or.inl rfl, hin, hmatches, fun _ => ?_, fun _ entry most hentry hmatching hmost =>
        longest_of_first rank hfound hentry hmatching hmost, hdevice, hunique⟩
      exact ⟨(matchesNetwork_iff hip first.snd).mpr hmatches,
        Or.inr ⟨Or.inl hid, ipvAddr, first.fst, rest, hip, hfound⟩⟩
    · exact absurd hfirst.left (not_true_of_false hfails)
  | present nw hnw hid hnone =>
    rcases hmatched with ⟨hmatches, rfl⟩ | ⟨_, bits, rest, hfound⟩
    · exact absurd hmatches (not_true_of_false (findMatchingNetwork_nil rank hnone hnw))
    · rw [hnone] at hfound
      cases hfound
  | created nw next hid hnone hcreated =>
    have hsplit : forall {other : NetworkRow}, other ∈ between.networks ->
        networkMatches ipvAddr other = .ok true -> other = current := by
      intro other hother hmatches
      rw [hcreated.networks] at hother
      rcases mem_append.mp hother with hold | hnew
      · exact absurd hmatches (not_true_of_false (findMatchingNetwork_nil rank hnone hold))
      · exact mem_singleton.mp hnew
    have hin : current ∈ between.networks := by
      rw [hcreated.networks]
      exact mem_append_right _ (mem_singleton.mpr rfl)
    rcases hmatched with ⟨hmatches, rfl⟩ | ⟨hfails, bits, rest, hfound⟩
    · refine ⟨Or.inr ⟨_, hcreated⟩, hin, hmatches, fun henforced => ?_,
        fun _ entry most hentry hmatching hmost => ?_, hdevice, hunique⟩
      · rw [hcreated.free] at henforced
        cases henforced
      · have hsame := hsplit hentry hmatching.left
        rw [← hsame] at hmost
        exact (hmatching.bits_eq hmost).le
    · rcases findMatchingNetwork_first rank hfound with ⟨hchosen, hfirst, _⟩
      have hsame := hsplit hchosen hfirst.left
      rw [← hsame] at hfails
      exact absurd hfirst.left (not_true_of_false hfails)

theorem Current.grown {current : NetworkRow}
    (h : Current rank tables inst ipvAddr current between) : Grown tables between := by
  cases h with
  | given => exact Or.inl rfl
  | found => exact Or.inl rfl
  | present => exact Or.inl rfl
  | created nw next hid hnone hcreated => exact Or.inr ⟨_, hcreated⟩

theorem satisfies_netIpPreSave (hvalid : NetworksValid tables) :
    Satisfies (fun state => state = tables) (netIpPreSave rank inst)
      (fun nw next => exists ipvAddr, Ipv4.ofText inst.ip = .ok ipvAddr ∧
        Accepted rank tables inst ipvAddr nw next) (Grown tables) := by
  unfold netIpPreSave
  split
  · apply satisfies_throw
    exact fun _ h => Or.inl h
  · next ipvAddr hip =>
      apply satisfies_bind ((satisfies_currentNetwork rank).imp_failed fun _ h => Or.inl h)
      intro current
      have hmatching : Satisfies (Current rank tables inst ipvAddr current)
          (matchingNetwork rank inst ipvAddr current)
          (fun chosen next => Current rank tables inst ipvAddr current next ∧
            Matched rank next ipvAddr current chosen) (Grown tables) := by
        intro state hcurrent
        have hchosen := satisfies_matchingNetwork rank state inst ipvAddr current state rfl
        cases hresult : matchingNetwork rank inst ipvAddr current state with
        | error raised next =>
          rw [hresult] at hchosen
          exact hchosen ▸ hcurrent.grown
        | ok chosen next =>
          rw [hresult] at hchosen
          rcases hchosen with ⟨hmatched, rfl⟩
          exact ⟨hcurrent, hmatched⟩
      apply satisfies_bind hmatching
      intro chosen
      apply satisfies_get_bind
      rintro next ⟨hcurrent, hmatched⟩
      have hfailed : forall state, state = next -> Grown tables state := fun _ h =>
        h ▸ hcurrent.grown
      apply satisfies_check_bind hfailed
      intro hdevice
      apply satisfies_check_bind hfailed
      intro hunique
      apply satisfies_pure
      rintro _ rfl
      exact ⟨ipvAddr, hip, hcurrent.accepted rank hvalid hip hmatched hdevice hunique⟩

variable {next : NetIpTables}

theorem Grown.networks (h : Grown tables next) :
    (forall nw, nw ∈ tables.networks -> nw ∈ next.networks) ∧ next.netIps = tables.netIps ∧
      forall nw, nw ∈ next.networks -> nw ∈ tables.networks ∨
        nw.enforceUniqueIps = false := by
  rcases h with rfl | ⟨nw, hcreated⟩
  · exact ⟨fun _ h => h, rfl, fun _ h => Or.inl h⟩
  · rw [hcreated.networks]
    refine ⟨fun _ h => mem_append_left _ h, rfl, fun other hother => ?_⟩
    rcases mem_append.mp hother with hold | hnew
    · exact Or.inl hold
    · rw [mem_singleton.mp hnew]
      exact Or.inr hcreated.free

theorem Grown.valid (h : Grown tables next) (hvalid : NetworksValid tables) :
    NetworksValid next := by
  rcases h with rfl | ⟨nw, hcreated⟩
  · exact hvalid
  · rw [hcreated.networks]
    constructor
    case valid =>
      intro other hother
      rcases mem_append.mp hother with hold | hnew
      · exact hvalid.valid other hold
      · rw [mem_singleton.mp hnew]
        exact hcreated.valid
    case nodup =>
      show ((tables.networks ++ [nw]).map NetworkRow.pk).Nodup
      rw [map_append]
      apply Nodup.append hvalid.nodup (nodup_singleton _)
      intro pk hpk hnew
      exact hcreated.fresh (mem_singleton.mp hnew ▸ hpk)

theorem Grown.kept (h : Grown tables next) (hkept : Kept tables) :
    Kept next := by
  rcases h.networks with ⟨hold, hrows, _⟩
  constructor
  case located =>
    rw [hrows]
    intro row hrow
    rcases hkept.located row hrow with ⟨nw, hnw, hpk, hlies⟩
    exact ⟨nw, hold nw hnw, hpk, hlies⟩
  case unique =>
    rw [hrows]
    intro nw hnw henforced row other hrow hother hrowId hotherId hsame
    rcases h.networks.right.right nw hnw with hin | hfree
    · exact hkept.unique nw hin henforced row other hrow hother hrowId hotherId hsame
    · rw [henforced] at hfree
      cases hfree

theorem liesIn_of_matches {text : Text} (h : MatchesNetwork text nw) : LiesIn text nw := by
  constructor
  case found => exact h
  case place =>
    intro ip network mask hspells hnetwork hmask
    rcases h with ⟨ipvAddr, hread, hmatches⟩
    rw [ofText_spells hspells] at hread
    rw [← Except.ok.inj hread] at hmatches
    unfold networkMatches at hmatches
    rw [ofText_spells hmask, ofText_spells hnetwork] at hmatches
    rcases exists_of_bind hmatches with ⟨read, hmaskRead, hmatches⟩
    rw [← Except.ok.inj hmaskRead, and_ofAddress] at hmatches
    exact (eq_ofAddress _ _).mp (Except.ok.inj hmatches)

theorem matchingEntry_of_prefixLength {bits : Nat}
    (h : networkMatches ipvAddr nw = .ok true) (hbits : PrefixLength nw bits) :
    MatchingEntry ipvAddr ((bits : Int), nw) := by
  rcases hbits with ⟨mask, hmask, hle, hnumber⟩
  exact ⟨h, _, ofText_spells hmask, (netmaskBits_ofAddress hle hnumber).symm⟩

theorem writeRow_eq (inst : NetIpInstance) (nw : NetworkRow) (rows : List NetIpRow) :
    exists row, writeRow inst nw rows = row :: others inst rows ∧ row.ip = inst.ip ∧
      row.networkId = nw.pk := by
  have hrows : rows.filter (fun other => decide (other.pk ≠
      inst.pk.getD (freshKey (rows.map NetIpRow.pk)))) = others inst rows := by
    apply filter_congr
    intro other hother
    cases hpk : inst.pk with
    | none =>
      have hfresh : other.pk ≠ freshKey (rows.map NetIpRow.pk) := by
        intro hsame
        have hin : other.pk ∈ rows.map NetIpRow.pk := mem_map.mpr ⟨other, hother, rfl⟩
        exact freshKey_not_mem _ (hsame ▸ hin)
      rw [Option.getD_none]
      simp [hfresh]
    | some pk => simp
  refine ⟨⟨inst.pk.getD (freshKey (rows.map NetIpRow.pk)), inst.ip, nw.pk, inst.device⟩, ?_, rfl,
    rfl⟩
  rw [← hrows]
  rfl

/-- What is written when nothing is raised. -/
def written (inst : NetIpInstance) (nw : NetworkRow) (between : NetIpTables) : NetIpTables :=
  { between with netIps := writeRow inst nw between.netIps }

theorem satisfies_saveNetIp (hvalid : NetworksValid tables) (inst : NetIpInstance) :
    Satisfies (fun state => state = tables) (saveNetIp rank inst)
      (fun nw next => exists ipvAddr between, Ipv4.ofText inst.ip = .ok ipvAddr ∧
        Accepted rank tables inst ipvAddr nw between ∧ next = written inst nw between)
      (Grown tables) := by
  unfold saveNetIp
  apply satisfies_bind (satisfies_netIpPreSave rank hvalid)
  rintro nw between ⟨ipvAddr, hip, haccepted⟩
  exact ⟨ipvAddr, between, hip, haccepted, rfl⟩

theorem SameIp.symm {text other : Text} (h : SameIp text other) : SameIp other text := by
  rcases h with ⟨ip, htext, hother⟩
  exact ⟨ip, hother, htext⟩

theorem ne_of_checkEnforced (h : checkEnforced inst nw tables = .ok ())
    (henforced : nw.enforceUniqueIps = true) {row : NetIpRow}
    (hrow : row ∈ others inst tables.netIps) (hid : row.networkId = nw.pk) : row.ip ≠ inst.ip := by
  intro hsame
  have hin : row ∈ (others inst tables.netIps).filter fun row =>
      decide (row.networkId = nw.pk ∧ row.ip = inst.ip) :=
    mem_filter.mpr ⟨hrow, decide_eq_true ⟨hid, hsame⟩⟩
  unfold checkEnforced at h
  rw [if_pos henforced] at h
  split at h
  · next hnone =>
      rw [hnone] at hin
      cases hin
  · cases h
  · cases h

theorem Accepted.kept (hvalid : NetworksValid tables)
    (hkept : Kept tables) (hspelling : ¬ Respelled rank tables inst)
    (hip : Ipv4.ofText inst.ip = .ok ipvAddr)
    (h : Accepted rank tables inst ipvAddr nw between) : Kept (written inst nw between) := by
  have hbetween := h.grown.kept hkept
  rcases h.grown.networks with ⟨_, hrows, hadded⟩
  rcases writeRow_eq inst nw between.netIps with ⟨saved, hwritten, hsavedIp, hsavedId⟩
  have hnetIps : (written inst nw between).netIps = saved :: others inst between.netIps := hwritten
  have hold : forall row, row ∈ others inst between.netIps -> row ∈ between.netIps :=
    fun row hrow => (mem_filter.mp hrow).left
  -- the row that is written shares its address with no other row of its network
  have hother : nw.enforceUniqueIps = true -> forall row, row ∈ others inst between.netIps ->
      row.networkId = nw.pk -> ¬ SameIp row.ip inst.ip := by
    intro henforced row hrow hid hsame
    have hin : nw ∈ tables.networks := by
      rcases hadded nw h.member with hin | hfree
      · exact hin
      · rw [henforced] at hfree
        cases hfree
    have hne := ne_of_checkEnforced h.unique henforced hrow hid
    rw [hrows] at hrow
    exact hspelling ⟨nw, row, hin, henforced, h.enforced henforced, hrow, hid, hne, hsame⟩
  constructor
  case located =>
    rw [hnetIps]
    intro row hrow
    rcases mem_cons.mp hrow with rfl | hrow
    · refine ⟨nw, h.member, hsavedId.symm, ?_⟩
      rw [hsavedIp]
      exact liesIn_of_matches ((matchesNetwork_iff hip nw).mpr h.found)
    · exact hbetween.located row (hold row hrow)
  case unique =>
    rw [hnetIps]
    intro enforcing henforcing henforced row other hrow hotherRow hrowId hotherId hsame
    have hown : saved.networkId = enforcing.pk -> enforcing = nw := by
      intro hid
      exact row_eq_of_pk (h.grown.valid hvalid) henforcing h.member (hid.symm.trans hsavedId)
    rcases mem_cons.mp hrow with rfl | hrowOld
    · rcases mem_cons.mp hotherRow with rfl | hotherOld
      · rfl
      · have hnw := hown hrowId
        rw [hnw] at henforced hotherId
        rw [hsavedIp] at hsame
        exact absurd hsame.symm (hother henforced other hotherOld hotherId)
    · rcases mem_cons.mp hotherRow with rfl | hotherOld
      · have hnw := hown hotherId
        rw [hnw] at henforced hrowId
        rw [hsavedIp] at hsame
        exact absurd hsame (hother henforced row hrowOld hrowId)
      · exact hbetween.unique enforcing henforcing henforced row other (hold row hrowOld)
          (hold other hotherOld) hrowId hotherId hsame

theorem currentNetwork_given (hvalid : NetworksValid tables)
    (hnw : nw ∈ tables.networks) (hid : inst.networkId = some nw.pk) :
    currentNetwork rank inst ipvAddr tables = .ok nw tables := by
  unfold currentNetwork
  rw [bind_apply, get_apply]
  dsimp only
  rw [hid]
  dsimp only
  rw [find?_of_nodup hvalid.nodup hnw rfl]
  rfl

theorem currentNetwork_found (hid : inst.networkId = none)
    (hfound : findMatchingNetwork rank ipvAddr tables.networks = .ok (first :: rest)) :
    currentNetwork rank inst ipvAddr tables = .ok first.snd tables := by
  unfold currentNetwork
  rw [bind_apply, get_apply]
  dsimp only
  rw [hid]
  dsimp only
  rw [hfound]
  rfl

theorem matchingNetwork_true (h : networkMatches ipvAddr nw = .ok true) :
    matchingNetwork rank inst ipvAddr nw tables = .ok nw tables := by
  unfold matchingNetwork
  rw [bind_apply, get_apply]
  dsimp only
  rw [h]
  rfl

theorem matchingNetwork_found (h : networkMatches ipvAddr nw = .ok false)
    (hfound : findMatchingNetwork rank ipvAddr tables.networks = .ok (first :: rest)) :
    matchingNetwork rank inst ipvAddr nw tables = .ok first.snd tables := by
  unfold matchingNetwork
  rw [bind_apply, get_apply]
  dsimp only
  rw [h, hfound]
  rfl

theorem exists_currentNetwork (hvalid : NetworksValid tables)
    (hnw : nw ∈ tables.networks) (hip : Ipv4.ofText inst.ip = .ok ipvAddr)
    (hbelongs : Belongs rank tables inst nw) :
    exists current, currentNetwork rank inst ipvAddr tables = .ok current tables ∧
      matchingNetwork rank inst ipvAddr current tables = .ok nw tables := by
  have hmatches := (matchesNetwork_iff hip nw).mp hbelongs.left
  rcases hbelongs.right with hid | ⟨hmisplaced, ip, bits, rest, hread, hfound⟩
  · exact ⟨nw, currentNetwork_given rank hvalid hnw hid, matchingNetwork_true rank hmatches⟩
  · rw [← Except.ok.inj (hip.symm.trans hread)] at hfound
    rcases hmisplaced with hnone | ⟨given, hgiven, hid, hnot⟩
    · exact ⟨nw, currentNetwork_found rank hnone hfound, matchingNetwork_true rank hmatches⟩
    · refine ⟨given, currentNetwork_given rank hvalid hgiven hid, ?_⟩
      have hfails : networkMatches ipvAddr given = .ok false := by
        rcases exists_of_bind hfound with ⟨entries, hentries, _⟩
        rcases (matchList_mem hentries).right given hgiven with ⟨matching, hmatching⟩
        cases matching with
        | false => exact hmatching
        | true => exact absurd ((matchesNetwork_iff hip given).mpr hmatching) hnot
      exact matchingNetwork_found rank hfails hfound

theorem saveNetIp_of_checks {current nw : NetworkRow} (hip : Ipv4.ofText inst.ip = .ok ipvAddr)
    (hcurrent : currentNetwork rank inst ipvAddr tables = .ok current tables)
    (hmatching : matchingNetwork rank inst ipvAddr current tables = .ok nw tables)
    (hdevice : checkDevice inst nw tables = .ok ())
    (hunique : checkEnforced inst nw tables = .ok ()) :
    saveNetIp rank inst tables = .ok nw (written inst nw tables) := by
  have hpre : netIpPreSave rank inst tables = .ok nw tables := by
    unfold netIpPreSave
    rw [hip]
    dsimp only
    rw [bind_apply, hcurrent]
    dsimp only
    rw [bind_apply, hmatching]
    dsimp only
    rw [bind_apply, get_apply]
    dsimp only
    rw [hdevice, hunique]
    rfl
  unfold saveNetIp
  rw [bind_apply, hpre]
  rfl

theorem saveNetIp_respelled (hvalid : NetworksValid tables) (hkept : Kept tables)
    (h : Respelled rank tables inst) :
    exists nw row, nw ∈ tables.networks ∧ nw.enforceUniqueIps = true ∧
      row ∈ others inst tables.netIps ∧ row.networkId = nw.pk ∧ row.ip ≠ inst.ip ∧
        SameIp row.ip inst.ip ∧ saveNetIp rank inst tables = .ok nw (written inst nw tables) := by
  rcases h with ⟨nw, row, hnw, henforced, hbelongs, hrow, hid, hne, hsame⟩
  rcases hsame with ⟨ipvAddr, hread, hip⟩
  rcases exists_currentNetwork rank hvalid hnw hip hbelongs with ⟨current, hcurrent, hmatching⟩
  have hold : forall other, other ∈ others inst tables.netIps -> other ∈ tables.netIps :=
    fun other hother => (mem_filter.mp hother).left
  -- a row with the text itself would share its address with the one that is spelled otherwise
  have hunused : forall other, other ∈ others inst tables.netIps -> other.networkId = nw.pk ->
      other.ip ≠ inst.ip := by
    intro other hother hotherId htext
    have heq := hkept.unique nw hnw henforced other row (hold other hother) (hold row hrow)
      hotherId hid ⟨ipvAddr, htext ▸ hip, hread⟩
    rw [← heq] at hne
    exact hne htext
  have hdevice : checkDevice inst nw tables = .ok () := by
    apply if_neg
    intro hin
    rcases mem_map.mp hin with ⟨other, hother, hpair⟩
    exact hunused other (mem_filter.mp hother).left (congrArg Prod.snd hpair)
      (congrArg Prod.fst hpair)
  have hunique : checkEnforced inst nw tables = .ok () := by
    have hnone : (others inst tables.netIps).filter (fun other =>
        decide (other.networkId = nw.pk ∧ other.ip = inst.ip)) = [] := by
      apply filter_eq_nil_iff.mpr
      intro other hother hboth
      have hboth := of_decide_eq_true hboth
      exact hunused other hother hboth.left hboth.right
    unfold checkEnforced
    rw [if_pos henforced, hnone]
  exact ⟨nw, row, hnw, henforced, hrow, hid, hne, ⟨ipvAddr, hread, hip⟩,
    saveNetIp_of_checks rank hip hcurrent hmatching hdevice hunique⟩

/-- The networks are valid, and what is asked of the saved addresses holds. -/
structure NetIpInvariant (tables : NetIpTables) : Prop where
  valid : NetworksValid tables
  kept : Kept tables

theorem netIpStep_invariant (tables : NetIpTables) (request : NetIpRequest)
    (h : NetIpInvariant tables) (hspelling : KeepsSpelling rank tables request) :
    NetIpInvariant (netIpStep rank tables request) := by
  cases request with
  | delete pk =>
    have hold : forall row, row ∈ (netIpStep rank tables (.delete pk)).netIps ->
        row ∈ tables.netIps := fun row hrow => (mem_filter.mp hrow).left
    refine ⟨⟨h.valid.valid, h.valid.nodup⟩, ?_, ?_⟩
    · exact fun row hrow => h.kept.located row (hold row hrow)
    · exact fun nw hnw henforced row other hrow hother =>
        h.kept.unique nw hnw henforced row other (hold row hrow) (hold other hother)
  | save inst =>
    have hsaved := satisfies_saveNetIp rank h.valid inst tables rfl
    show NetIpInvariant ((saveNetIp rank inst).after tables)
    unfold Program.after
    cases hresult : saveNetIp rank inst tables with
    | error raised next =>
      rw [hresult] at hsaved
      exact ⟨hsaved.valid h.valid, hsaved.kept h.kept⟩
    | ok nw next =>
      rw [hresult] at hsaved
      rcases hsaved with ⟨ipvAddr, between, hip, haccepted, rfl⟩
      have hgrown := haccepted.grown.valid h.valid
      exact ⟨⟨hgrown.valid, hgrown.nodup⟩, haccepted.kept rank h.valid h.kept hspelling hip⟩

theorem chosenLongest_of_valid (hvalid : NetworksValid tables) (inst : NetIpInstance) :
    ChosenLongest rank tables inst := by
  intro nw next hresult
  rcases (satisfies_saveNetIp rank hvalid inst).returned rfl hresult with
    ⟨ipvAddr, between, hip, haccepted, rfl⟩
  refine ⟨liesIn_of_matches ((matchesNetwork_iff hip nw).mpr haccepted.found), ?_⟩
  intro hmisplaced other hother hmatches bits most hbits hmost
  have hmatching := matchingEntry_of_prefixLength ((matchesNetwork_iff hip other).mp hmatches) hbits
  have hchosen := matchingEntry_of_prefixLength haccepted.found hmost
  have hle := haccepted.longest hmisplaced _ _ hother hmatching hchosen
  exact Int.ofNat_le.mp hle

theorem not_kept_of_respelled (h : NetIpInvariant tables) (hrespelled : Respelled rank tables inst) :
    ¬ Kept (netIpStep rank tables (.save inst)) := by
  intro hkept
  rcases saveNetIp_respelled rank h.valid h.kept hrespelled with
    ⟨nw, row, hnw, henforced, hrow, hid, hne, hsame, hresult⟩
  rcases writeRow_eq inst nw tables.netIps with ⟨saved, hwritten, hsavedIp, hsavedId⟩
  have hafter : netIpStep rank tables (.save inst) = written inst nw tables := by
    show (saveNetIp rank inst).after tables = _
    unfold Program.after
    rw [hresult]
  have hnetIps : (written inst nw tables).netIps = saved :: others inst tables.netIps := hwritten
  rw [hafter] at hkept
  have hin : forall other, other ∈ saved :: others inst tables.netIps ->
      other ∈ (written inst nw tables).netIps := fun other hother => hnetIps ▸ hother
  have heq := hkept.unique nw hnw henforced row saved (hin row (mem_cons_of_mem _ hrow))
    (hin saved mem_cons_self) hid hsavedId (hsavedIp ▸ hsame)
  rw [heq] at hne
  exact hne hsavedIp

theorem netIpStep_not_kept (tables : NetIpTables) (request : NetIpRequest)
    (h : NetIpInvariant tables) (hnot : ¬ KeepsSpelling rank tables request) :
    ¬ AddressesKept rank (netIpStep rank tables request) := by
  intro hgood
  cases request with
  | delete pk => exact hnot trivial
  | save inst =>
    have hrespelled : Respelled rank tables inst := by
      by_contra hno
      exact hnot hno
    exact not_kept_of_respelled rank h hrespelled hgood.left

/-- The addresses are kept in the runs in which no address is saved with another spelling. -/
theorem netIps_kept_iff (hvalid : NetworksValid tables) (hkept : Kept tables)
    (requests : List NetIpRequest) :
    (forall taken rest, requests = taken ++ rest ->
        AddressesKept rank (run (netIpStep rank) tables taken)) <->
      Along (netIpStep rank) (KeepsSpelling rank) tables requests :=
  reached_iff_along (netIpStep rank) (netIpStep_invariant rank)
    (fun _ h => ⟨h.kept, fun inst => chosenLongest_of_valid rank h.valid inst⟩)
    (netIpStep_not_kept rank) ⟨hvalid, hkept⟩ requests

end Ranked

def officeNetwork : NetworkRow :=
  ⟨1, "office".toList, "10.0.0.0".toList, "255.255.255.0".toList, true⟩

def officeTables : NetIpTables where
  networks := [officeNetwork]
  networkTypes := [['o']]
  netIps := []
  deviceNames := fun _ => []
  createDefaultNetwork := true

def officeSave (ip : Text) (device : Nat) : NetIpRequest := .save ⟨none, ip, none, device⟩

theorem officeTables_valid : NetworksValid officeTables := by
  have hnetwork : Spells officeNetwork.network ⟨10, 0, 0, 0⟩ := by
    unfold Spells
    rfl
  have hmask : Spells officeNetwork.netmask ⟨255, 255, 255, 0⟩ := by
    unfold Spells
    rfl
  constructor
  case valid =>
    intro nw hnw
    rw [mem_singleton.mp hnw]
    exact ⟨⟨24, _, hmask, by decide, rfl⟩, _, _, hnetwork, hmask, rfl⟩
  case nodup => exact nodup_singleton _

theorem officeTables_kept : Kept officeTables := by
  constructor
  case located =>
    intro row hrow
    cases hrow
  case unique =>
    intro nw _ _ row other hrow
    cases hrow

theorem netIps_kept_iff_office :
    (forall taken rest, [officeSave "10.0.0.1".toList 1, .delete 1] = taken ++ rest ->
        AddressesKept (fun _ => 0) (run (netIpStep fun _ => 0) officeTables taken)) <->
      Along (netIpStep fun _ => 0) (KeepsSpelling fun _ => 0) officeTables
        [officeSave "10.0.0.1".toList 1, .delete 1] :=
  netIps_kept_iff _ officeTables_valid officeTables_kept _

/-- Both spellings of the address are saved in the network that asks for unique addresses. -/
theorem leadingZero_saved_twice :
    (run (netIpStep fun _ => 0) officeTables
        [officeSave "10.0.0.1".toList 1, officeSave "010.0.0.1".toList 2]).netIps =
      [⟨2, "010.0.0.1".toList, 1, 2⟩, ⟨1, "10.0.0.1".toList, 1, 1⟩] ∧
    ¬ AddressesKept (fun _ => 0) (run (netIpStep fun _ => 0) officeTables
        [officeSave "10.0.0.1".toList 1, officeSave "010.0.0.1".toList 2]) := by
  have hnetIps : (run (netIpStep fun _ => 0) officeTables
      [officeSave "10.0.0.1".toList 1, officeSave "010.0.0.1".toList 2]).netIps =
        [⟨2, "010.0.0.1".toList, 1, 2⟩, ⟨1, "10.0.0.1".toList, 1, 1⟩] := rfl
  have hnetworks : (run (netIpStep fun _ => 0) officeTables
      [officeSave "10.0.0.1".toList 1, officeSave "010.0.0.1".toList 2]).networks =
        [officeNetwork] := rfl
  refine ⟨hnetIps, fun hkept => ?_⟩
  have hunique := hkept.left.unique
  rw [hnetIps, hnetworks] at hunique
  have heq := hunique officeNetwork mem_cons_self rfl _ _ mem_cons_self
    (mem_cons_of_mem _ mem_cons_self) rfl rfl ⟨⟨[10, 0, 0, 1]⟩, rfl, rfl⟩
  exact absurd (congrArg NetIpRow.pk heq) (by decide)

end Icsw.Network
