import Icsw.Aggregate.FetchValues

/-!
# Hosts that are counted once

Where the hosts of a call are told apart, each one is listed in the group of its own device, and no
device is listed twice.
-/

namespace Icsw.Aggregate

open Foundation List

/-- The device of a host is the one with its uuid, else with its full name, else the only one with
its short name. -/
def DeviceOf (devices : List AGDevice) (hStruct : HostList) (uuid : Text) (agd : AGDevice) : Prop :=
  agd ∈ devices ∧ (agd.uuid = uuid ∨
    (forall other, other ∈ devices -> other.uuid ≠ uuid) ∧
      (agd.name = hostName hStruct uuid ∨
        (forall other, other ∈ devices -> other.name ≠ hostName hStruct uuid) ∧
          agd.sName = firstPart (hostName hStruct uuid) ∧
            forall other, other ∈ devices -> other.sName = agd.sName -> other = agd))

namespace MatchRecord

/-- Each host is listed once, in the group of its device, and each device has one host. -/
structure CountedOnce (record : MatchRecord) : Prop where
  nodup : (uuidList record.buildList).Nodup
  reported : forall uuid, uuid ∈ uuidList record.buildList -> uuid ∈ record.call.hStruct.keys
  right : forall entry, entry ∈ record.buildList.dropLast -> forall uuid, uuid ∈ entry.uuids ->
    exists agd, DeviceOf record.before.devices record.call.hStruct uuid agd ∧
      agd.group = entry.uuid
  single : forall uuid other agd, uuid ∈ uuidList record.buildList ->
    other ∈ uuidList record.buildList ->
      DeviceOf record.before.devices record.call.hStruct uuid agd ->
        DeviceOf record.before.devices record.call.hStruct other agd -> uuid = other

end MatchRecord

/-!
## Hosts that are told apart
-/

namespace AGStruct

variable (ags : AGStruct)

/-- The host is looked at in this call, and not by its uuid. -/
def ByName (uuid : Text) : Prop :=
  uuid ∉ ags.matchedUuids ∧ uuid ∉ ags.groupUuids ∧ uuid ∉ ags.uuids

/-- The table with other matches. -/
def withMatches (matchedUuids : List Text) (collectdUuid : Dict Nat Text)
    (lut : Dict Text AGDevice) : AGStruct :=
  { ags with matchedUuids := matchedUuids, collectdUuid := collectdUuid, lut := lut }

/-- The table has an entry for all it knows. -/
structure Known : Prop where
  uuids : forall text, text ∈ ags.uuids <-> exists agd, agd ∈ ags.devices ∧ agd.uuid = text
  fqdns : forall text, text ∈ ags.fqdns <-> exists agd, agd ∈ ags.devices ∧ agd.name = text
  snames : forall text, text ∈ ags.snames <-> exists agd, agd ∈ ags.devices ∧ agd.sName = text
  lut : forall text, text ∈ ags.matchedUuids ∨ text ∈ ags.uuids ∨ text ∈ ags.fqdns ∨
    text ∈ ags.snames -> exists agd, ags.lut.lookup text = some agd
  groups : forall text agd, ags.lut.lookup text = some agd ->
    exists sendName, ags.groupNames.lookup agd.group = some sendName

theorem Known.addGroup {ags : AGStruct} (h : ags.Known) (agg : AGDeviceGroup) :
    (ags.addGroup agg).Known ∧
      exists sendName, (ags.addGroup agg).groupNames.lookup agg.uuid = some sendName := by
  refine ⟨⟨h.uuids, h.fqdns, h.snames, h.lut, fun text agd hagd => ?_⟩, agg.sendName,
    AList.lookup_insert _⟩
  rcases h.groups text agd hagd with ⟨sendName, hname⟩
  by_cases heq : agd.group = agg.uuid
  · rw [heq]
    exact ⟨agg.sendName, AList.lookup_insert _⟩
  · exact ⟨sendName, (AList.lookup_insert_ne heq).trans hname⟩

variable {agd : AGDevice}

theorem mem_insert_iff_append {texts : List Text} {devices : List AGDevice}
    {field : AGDevice -> Text}
    (h : forall text, text ∈ texts <-> exists agd, agd ∈ devices ∧ field agd = text) (text : Text) :
    text ∈ List.insert (field agd) texts <->
      exists other, other ∈ devices ++ [agd] ∧ field other = text := by
  rw [mem_insert_iff, h]
  constructor
  · rintro (heq | ⟨other, hother, heq⟩)
    · exact ⟨agd, mem_append_right _ (mem_singleton_self agd), heq.symm⟩
    · exact ⟨other, mem_append_left _ hother, heq⟩
  · rintro ⟨other, hother, heq⟩
    rcases mem_append.mp hother with hmem | hmem
    · exact Or.inr ⟨other, hmem, heq⟩
    · exact Or.inl (mem_singleton.mp hmem ▸ heq.symm)

theorem lookup_addLut (agd : AGDevice) (text : Text) :
    (ags.addLut agd).lut.lookup text =
      if text = agd.sName ∨ text = agd.uuid ∨ text = agd.name then some agd
      else ags.lut.lookup text := by
  show (((ags.lut.insert agd.name agd).insert agd.uuid agd).insert agd.sName agd).lookup text = _
  rw [Dict.lookup_insert_if, Dict.lookup_insert_if, Dict.lookup_insert_if]
  by_cases hs : text = agd.sName
  · simp [hs]
  · by_cases hu : text = agd.uuid
    · simp [hu]
    · simp only [hs, hu, false_or, if_false, eq_comm]

theorem Known.addLut {ags : AGStruct} (h : ags.Known)
    (hgroup : exists sendName, ags.groupNames.lookup agd.group = some sendName) :
    (ags.addLut agd).Known := by
  refine ⟨mem_insert_iff_append h.uuids, mem_insert_iff_append h.fqdns,
    mem_insert_iff_append h.snames, ?_, ?_⟩
  · intro text htext
    rw [lookup_addLut]
    split
    · exact ⟨agd, rfl⟩
    · rename_i hnot
      simp only [not_or] at hnot
      apply h.lut
      rcases htext with hmatched | hrest
      · exact Or.inl hmatched
      · right
        exact hrest.imp (fun hmem => (mem_insert_iff.mp hmem).resolve_left hnot.right.left)
          fun hrest => hrest.imp
            (fun hmem => (mem_insert_iff.mp hmem).resolve_left hnot.right.right)
            fun hmem => (mem_insert_iff.mp hmem).resolve_left hnot.left
  · intro text other hother
    rw [lookup_addLut] at hother
    split at hother
    · rw [← Option.some.inj hother]
      exact hgroup
    · exact h.groups text other hother

variable (table : Text -> Option Text)

def Finds (found : List Text) (uuid : Text) : Prop :=
  exists text, text ∈ found ∧ table text = some uuid

/-- The hosts that a pass finds by what it looks for have got the entries of that. -/
structure Taken (found : List Text) (state result : AGStruct × List Text) : Prop where
  same : exists matchedUuids collectdUuid lut,
    result.1 = state.1.withMatches matchedUuids collectdUuid lut
  matched : forall uuid, uuid ∈ result.1.matchedUuids <->
    uuid ∈ state.1.matchedUuids ∨ Finds table found uuid
  left : forall uuid, uuid ∈ result.2 <->
    uuid ∈ state.2 ∧ ¬ Finds table found uuid
  other : forall uuid, ¬ Finds table found uuid ->
    result.1.lut.lookup uuid = state.1.lut.lookup uuid
  taken : forall text, text ∈ found -> forall uuid, table text = some uuid ->
    result.1.lut.lookup uuid = state.1.lut.lookup text

theorem Taken.nil (state : AGStruct × List Text) : Taken table [] state state :=
  ⟨⟨_, _, _, rfl⟩, fun _ => by simp [Finds], fun _ => by simp [Finds], fun _ _ => rfl,
    fun _ htext => by cases htext⟩

/-- What is found is found once, and is not looked for itself. -/
structure Separate (found : List Text) : Prop where
  injective : forall text other uuid, text ∈ found -> other ∈ found -> table text = some uuid ->
    table other = some uuid -> text = other
  apart : forall text uuid, text ∈ found -> table text = some uuid -> uuid ∈ found ->
    text = uuid

variable {table : Text -> Option Text} {rest : List Text}

theorem Separate.tail {first : Text} (h : Separate table (first :: rest)) : Separate table rest :=
  ⟨fun text other uuid htext hother =>
      h.injective text other uuid (mem_cons_of_mem _ htext) (mem_cons_of_mem _ hother),
    fun text uuid htext hsome huuid =>
      h.apart text uuid (mem_cons_of_mem _ htext) hsome (mem_cons_of_mem _ huuid)⟩

theorem finds_cons {first uuid : Text} :
    Finds table (first :: rest) uuid <-> table first = some uuid ∨ Finds table rest uuid := by
  simp [Finds]

theorem finds_singleton {text uuid : Text} : Finds table [text] uuid <-> table text = some uuid := by
  simp [Finds]

theorem Taken.kept {first text : Text} {state next : AGStruct × List Text}
    (h : Taken table [first] state next) (hsame : table first = some text -> first = text) :
    next.1.lut.lookup text = state.1.lut.lookup text := by
  by_cases hself : table first = some text
  · rw [h.taken first mem_cons_self text hself, hsame hself]
  · exact h.other text (mt finds_singleton.mp hself)

theorem Taken.cons {first : Text}
    {state next result : AGStruct × List Text} (hsep : Separate table (first :: rest))
    (hfirst : Taken table [first] state next) (hrest : Taken table rest next result) :
    Taken table (first :: rest) state result := by
  constructor
  · rcases hfirst.same with ⟨_, _, _, hnext⟩
    rcases hrest.same with ⟨matchedUuids, collectdUuid, lut, hresult⟩
    exact ⟨matchedUuids, collectdUuid, lut, by rw [hresult, hnext]; rfl⟩
  · intro uuid
    rw [hrest.matched, hfirst.matched, finds_singleton, finds_cons, or_assoc]
  · intro uuid
    rw [hrest.left, hfirst.left, finds_singleton, finds_cons, not_or, and_assoc]
  · intro uuid hnot
    rw [finds_cons, not_or, ← finds_singleton] at hnot
    rw [hrest.other uuid hnot.right, hfirst.other uuid hnot.left]
  · intro text htext uuid hsome
    rcases mem_cons.mp htext with rfl | htail
    · by_cases hlater : Finds table rest uuid
      · rcases hlater with ⟨other, hother, hagain⟩
        have hsame := hsep.injective text other uuid htext (mem_cons_of_mem _ hother) hsome hagain
        rw [hrest.taken text (hsame ▸ hother) uuid hsome]
        exact hfirst.kept fun _ => rfl
      · rw [hrest.other uuid hlater]
        exact hfirst.taken text mem_cons_self uuid hsome
    · rw [hrest.taken text htail uuid hsome]
      exact hfirst.kept fun hback => hsep.apart first text mem_cons_self hback htext

variable {names : Dict Text Text}

variable {name : Text -> Text} {uuids : List Text}

/-- By which pass a host has been found, with its entry in the table after it. -/
inductive Found (ags : AGStruct) (hStruct : HostList) (fqdns snames : Dict Text Text) (uuid : Text) :
    Option AGDevice -> Prop
  | remembered (hmatched : uuid ∈ ags.matchedUuids) :
      Found ags hStruct fqdns snames uuid (ags.lut.lookup uuid)
  | byUuid (hmatched : uuid ∉ ags.matchedUuids) (hgroup : uuid ∉ ags.groupUuids)
      (huuid : uuid ∈ ags.uuids) : Found ags hStruct fqdns snames uuid (ags.lut.lookup uuid)
  | byFqdn (hnew : ags.ByName uuid) (hname : hostName hStruct uuid ∈ ags.fqdns)
      (hlookup : fqdns.lookup (hostName hStruct uuid) = some uuid) :
      Found ags hStruct fqdns snames uuid (ags.lut.lookup (hostName hStruct uuid))
  | bySname (hnew : ags.ByName uuid) (hname : firstPart (hostName hStruct uuid) ∈ ags.snames)
      (hprob : firstPart (hostName hStruct uuid) ∉ ags.probSnames)
      (hlookup : snames.lookup (firstPart (hostName hStruct uuid)) = some uuid)
      (hlost : hostName hStruct uuid ∈ ags.fqdns -> exists other, other ∈ hStruct.keys ∧
        other ≠ uuid ∧ ags.ByName other ∧ hostName hStruct other = hostName hStruct uuid) :
      Found ags hStruct fqdns snames uuid (ags.lut.lookup (firstPart (hostName hStruct uuid)))

def groupOf (uuid : Text) : Text :=
  ((ags.lut.lookup uuid).map AGDevice.group).getD []

/-- Each valid uuid is in the entry of its group, and in no other. -/
structure Built (validUuids : List Text) (buildList : List BuildEntry) : Prop where
  nodup : (uuidList buildList).Nodup
  valid : forall uuid, uuid ∈ uuidList buildList -> uuid ∈ validUuids
  group : forall entry, entry ∈ buildList.dropLast -> forall uuid, uuid ∈ entry.uuids ->
    uuid ∈ validUuids ∧ ags.groupOf uuid = entry.uuid

variable {entry : Option AGDevice}

theorem Found.known {ags : AGStruct} (hknown : ags.Known) {hStruct : HostList}
    {fqdns snames : Dict Text Text} {uuid : Text} (h : Found ags hStruct fqdns snames uuid entry) :
    exists agd sendName, entry = some agd ∧ ags.groupNames.lookup agd.group = some sendName := by
  have hentry : exists text agd, entry = ags.lut.lookup text ∧ ags.lut.lookup text = some agd := by
    cases h with
    | remembered hmatched => exact ⟨uuid, (hknown.lut uuid (Or.inl hmatched)).imp fun _ h => ⟨rfl, h⟩⟩
    | byUuid _ _ huuid =>
      exact ⟨uuid, (hknown.lut uuid (Or.inr (Or.inl huuid))).imp fun _ h => ⟨rfl, h⟩⟩
    | byFqdn _ hname _ =>
      exact ⟨_, (hknown.lut _ (Or.inr (Or.inr (Or.inl hname)))).imp fun _ h => ⟨rfl, h⟩⟩
    | bySname _ hname _ _ _ =>
      exact ⟨_, (hknown.lut _ (Or.inr (Or.inr (Or.inr hname)))).imp fun _ h => ⟨rfl, h⟩⟩
  rcases hentry with ⟨text, agd, heq, hagd⟩
  rcases hknown.groups text agd hagd with ⟨sendName, hname⟩
  exact ⟨agd, sendName, heq.trans hagd, hname⟩

section Apart

variable {ags : AGStruct} {hStruct : HostList} {fqdns snames : Dict Text Text} {uuid other : Text}

section

variable (hknown : ags.Known)
include hknown

end

end Apart

end AGStruct

end Icsw.Aggregate
