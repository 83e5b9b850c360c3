import Icsw.Network.MacText
import Icsw.Network.LiteralName

/-!
# Types that are created for a device

A created type has six bytes, and its pattern is the unescaped name..  It fits its device exactly
when the address has six bytes, the name is ASCII, short enough as a pattern, and matched by
itself.
-/

namespace Icsw.Network

open Foundation List

theorem autogenName_injective {idx idx' : Nat} (h : autogenName idx = autogenName idx') :
    idx = idx' :=
  Int.ofNat_inj.mp (formatInt_injective (append_cancel_left h))

theorem nextName_eq (genNames : List Text) (rounds genIdx : Nat)
    (h : exists more, more < rounds ∧ autogenName (genIdx + more) ∉ genNames) :
    exists more, more < rounds ∧ autogenName (genIdx + more) ∉ genNames ∧
      nextName genNames rounds genIdx = .ok (autogenName (genIdx + more)) := by
  induction rounds generalizing genIdx with
  | zero =>
    rcases h with ⟨more, hmore, _⟩
    cases hmore
  | succ rounds ih =>
    unfold nextName
    by_cases hused : autogenName genIdx ∈ genNames
    · rw [if_pos hused]
      rcases h with ⟨more, hmore, hfree⟩
      cases more with
      | zero => exact absurd hused hfree
      | succ more =>
        rw [Nat.add_succ, ← Nat.succ_add] at hfree
        rcases ih (genIdx + 1) ⟨more, Nat.lt_of_succ_lt_succ hmore, hfree⟩ with
          ⟨later, hlater, hfree', hname⟩
        rw [Nat.add_assoc, Nat.add_comm 1 later] at hfree' hname
        exact ⟨later + 1, Nat.succ_lt_succ hlater, hfree', hname⟩
    · rw [if_neg hused]
      exact ⟨0, Nat.succ_pos rounds, hused, rfl⟩

theorem exists_free (genNames : List Text) :
    exists more, more < genNames.length + 1 ∧ autogenName (1 + more) ∉ genNames := by
  by_contra hnone
  push Not at hnone
  have hnodup : ((range (genNames.length + 1)).map fun more => autogenName (1 + more)).Nodup := by
    refine Nodup.map_on (fun idx _ idx' _ heq => ?_) nodup_range
    exact Nat.add_left_cancel (autogenName_injective heq)
  have hsubset : (range (genNames.length + 1)).map (fun more => autogenName (1 + more)) ⊆
      genNames := by
    intro name hname
    rcases mem_map.mp hname with ⟨more, hmore, rfl⟩
    exact hnone more (mem_range.mp hmore)
  have hlength := (hnodup.subperm hsubset).length_le
  rw [length_map, length_range] at hlength
  omega

def isIdentifierChar (c : Char) : Bool :=
  (((false || (decide ('a' ≤ c) && decide (c ≤ 'z'))) || (decide ('A' ≤ c) && decide (c ≤ 'Z'))) ||
    (decide ('0' ≤ c) && decide (c ≤ '9'))) || c == '-'

theorem compile_identifierRe (re : ReLibrary) :
    re.compile NetworkDeviceType.identifierRe = some (Regex.seqAll
      [.start, Regex.plus isIdentifierChar, .stop]).matchesStart := rfl

theorem isIdentifierChar_autogenName {idx : Nat} {c : Char} (h : c ∈ autogenName idx) :
    isIdentifierChar c = true := by
  rcases mem_append.mp h with hstart | hdigits
  · exact (by decide : forall d, d ∈ "autogen-".toList -> isIdentifierChar d = true) c hstart
  · have hcode := isDigit_toDigits (show c ∈ Nat.toDigits 10 idx from hdigits)
    have hdigit : (decide ('0' ≤ c) && decide (c ≤ '9')) = true := by
      rw [Bool.and_eq_true, decide_eq_true_iff, decide_eq_true_iff]
      exact ⟨UInt32.le_iff_toNat_le.mpr hcode.left, UInt32.le_iff_toNat_le.mpr hcode.right⟩
    unfold isIdentifierChar
    rw [hdigit, Bool.or_true, Bool.true_or]

theorem matchesStart_run {accepts : Char -> Bool} {text : Text} (hne : text ≠ [])
    (h : forall c, c ∈ text -> accepts c = true) :
    (Regex.seqAll [.start, Regex.plus accepts, .stop]).matchesStart text = true := by
  have hrun := Regex.mem_ends_plus_run hne h [] []
  rw [append_nil, append_nil] at hrun
  have hstart : (⟨[], text⟩ : Place) ∈ Regex.start.ends ⟨[], text⟩ := mem_singleton_self _
  have hstop : (⟨text.reverse, []⟩ : Place) ∈ (Regex.seqAll [.stop]).ends ⟨text.reverse, []⟩ :=
    mem_singleton_self _
  exact Regex.matchesStart_of_mem (Regex.mem_ends_seq.mpr
    ⟨_, hstart, Regex.mem_ends_seq.mpr ⟨_, hrun, hstop⟩⟩)

theorem autogenName_length {idx : Nat} (h : idx < 10 ^ 10) : (autogenName idx).length ≤ 18 := by
  have hdigits : (Nat.toDigits 10 idx).length ≤ 10 :=
    (Nat.length_toDigits_le_iff (by decide) (by decide)).mpr h
  unfold autogenName
  rw [length_append]
  exact Nat.add_le_add_left hdigits 8

theorem formatAscii_eq_ok {before value after text : Text} :
    formatAscii before value after = .ok text <->
      asciiChars value = true ∧ text = before ++ value ++ after := by
  unfold formatAscii
  by_cases hascii : asciiChars value = true
  · rw [if_pos hascii]
    exact ⟨fun h => ⟨hascii, (Except.ok.inj h).symm⟩, fun h => congrArg Except.ok h.right.symm⟩
  · rw [if_neg hascii]
    exact iff_of_false (fun h => by cases h) fun h => hascii h.left

theorem asciiChars_nameBody (name : Text) :
    asciiChars (nameBody name) = true <-> asciiChars name = true := by
  unfold asciiChars
  induction name with
  | nil => exact Iff.rfl
  | cons c rest ih =>
    rw [all_cons, Bool.and_eq_true, ← ih]
    by_cases hc : Regex.isDigit c = true
    · have hcode : decide (c.toNat < 128) = true := by
        unfold Regex.isDigit at hc
        rw [Bool.and_eq_true, decide_eq_true_iff, decide_eq_true_iff] at hc
        have hhigh : c.toNat ≤ 57 := UInt32.le_iff_toNat_le.mp hc.right
        exact decide_eq_true (by omega)
      rw [and_iff_right hcode]
      by_cases hnext : rest.head?.any Regex.isDigit = true
      · rw [nameBody_run hc hnext]
      · rw [nameBody_digit hc hnext, all_append]
        rfl
    · rw [nameBody_other hc, all_cons, Bool.and_eq_true]

theorem newNameRe_head (name : Text) : (newNameRe name).head? = some '^' := rfl

theorem newNameRe_last (name : Text) : (newNameRe name).getLast? = some '$' := by
  show (('^' :: nameBody name) ++ ['$']).getLast? = _
  exact getLast?_concat

namespace NetworkDeviceType

theorem preSave_eq_ok {re : ReLibrary} {ndt ndt' : NetworkDeviceType} {idx : Nat} {name : Text}
    (hidentifier : ndt.identifier = autogenName idx) (hname : ndt.nameRe = newNameRe name) :
    ndt.preSave re = .ok ndt' <->
      (re.compile (newNameRe name)).isSome = true ∧ 6 ≤ ndt.macBytes ∧ ndt.macBytes ≤ 24 ∧
        ndt' = ndt := by
  have hblank : strip ndt.identifier ≠ [] := by
    rw [hidentifier]
    exact strip_ne_nil (mem_append_left _ (by decide : 'a' ∈ "autogen-".toList)) (by decide)
  have hne : autogenName idx ≠ [] := cons_ne_nil _ _
  have hchars : (Regex.seqAll [.start, Regex.plus isIdentifierChar, .stop]).matchesStart
      ndt.identifier ≠ false := by
    rw [hidentifier, matchesStart_run hne fun _ => isIdentifierChar_autogenName]
    decide
  unfold preSave
  rw [if_neg hblank, compile_identifierRe]
  dsimp only
  rw [if_neg hchars, hname, if_pos (newNameRe_head name)]
  show (do
    let nameRe <-
      if (newNameRe name).getLast? = some '$' then Except.ok (newNameRe name)
      else formatAscii [] (newNameRe name) ['$']
    _) = _ <-> _
  rw [if_pos (newNameRe_last name)]
  show (if (re.compile (newNameRe name)).isNone = true then _ else _) = _ <-> _
  cases hcompile : re.compile (newNameRe name) with
  | none =>
    refine iff_of_false (fun h => ?_) fun h => absurd h.left (by decide)
    rcases exists_of_bind h with ⟨message, _, hraised⟩
    cases hraised
  | some accepts =>
    show (if ndt.macBytes < 6 ∨ 24 < ndt.macBytes then _ else
      Except.ok { ndt with nameRe := newNameRe name }) = _ <-> _
    by_cases hbytes : ndt.macBytes < 6 ∨ 24 < ndt.macBytes
    · rw [if_pos hbytes]
      refine iff_of_false (fun h => by cases h) fun h => ?_
      omega
    · rw [if_neg hbytes, ← hname]
      constructor
      · intro h
        exact ⟨rfl, by omega, by omega, (Except.ok.inj h).symm⟩
      · intro h
        exact congrArg Except.ok h.right.right.right.symm

end NetworkDeviceType

/-- The name and the address of a device can be used for a type as they are. -/
structure UsableForType (re : ReLibrary) (name : Text) (bytes : Nat) : Prop where
  ascii : asciiChars name = true
  selfMatching : SelfMatching re name
  column : (newNameRe name).length ≤ 128
  bytes : bytes = 6

/-- A device that has no type yet and passes the other checks; there are no more types than keys
for them. -/
structure CausesCreation (re : ReLibrary) (tables : NetdeviceTables) (inst : Netdevice) : Prop where
  force : inst.forceNetworkDeviceTypeMatch = true
  devname : strip inst.cut.devname ≠ []
  unused : inst.cut.devname ∉ tables.ndNames
  mtu : 0 ≤ inst.mtu ∧ inst.mtu ≤ 65536
  noType : findMatchingNetworkDeviceType re tables inst.cut.devname = .ok none
  creates : tables.createNetworkDeviceTypes = true
  rows : tables.ndts.length < 2 ^ 31
  penalty : inst.penalty ≠ none
  master : checkMaster inst = .ok ()
  speed : exists speed, chooseSpeed tables inst = .ok speed

/-- The created type passes its own checks, matches the name and has the bytes of the address, and
the device is accepted with it. -/
def CreatedFits (re : ReLibrary) (tables : NetdeviceTables) (inst : Netdevice) (bytes : Nat) : Prop :=
  exists ndt saved, createNewType re tables.ndts inst.cut = .ok ndt ∧ ndt.preSave re = .ok ndt ∧
    ndt.matchName re inst.cut.devname = .ok true ∧ ndt.macBytes = bytes ∧
    netdevicePreSave re tables inst = .ok saved ∧ saved.networkDeviceTypeId = some ndt.pk

def createdType (ndts : List NetworkDeviceType) (ndev : Netdevice) (idx : Nat) :
    NetworkDeviceType where
  pk := freshKey (ndts.map NetworkDeviceType.pk)
  identifier := autogenName idx
  nameRe := newNameRe ndev.devname
  description := "autogenerated from '".toList ++ ndev.devname ++ ['\'']
  macBytes := min 6 (macBytesOf ndev.macaddr)
  allowVirtualInterfaces := false
  forMatching := true
  autoCreated := true

def genNames (ndts : List NetworkDeviceType) : List Text :=
  (ndts.map NetworkDeviceType.identifier).filter fun name => "autogen-".toList.isPrefixOf name

theorem createNewType_eq (re : ReLibrary) (ndts : List NetworkDeviceType) (ndev : Netdevice) :
    exists idx, idx ≤ ndts.length + 1 ∧
      (forall ndt, ndt ∈ ndts -> ndt.identifier ≠ autogenName idx) ∧
      (asciiChars ndev.devname = true ->
        createNewType re ndts ndev = (createdType ndts ndev idx).save re ndts) ∧
      (asciiChars ndev.devname ≠ true -> createNewType re ndts ndev = .error .unicodeEncodeError) := by
  rcases nextName_eq (genNames ndts) ((genNames ndts).length + 1) 1 (exists_free _) with
    ⟨more, hmore, hfree, hname⟩
  have hlength : (genNames ndts).length ≤ ndts.length := by
    have hfilter := length_filter_le (fun name => "autogen-".toList.isPrefixOf name)
      (ndts.map NetworkDeviceType.identifier)
    rw [length_map] at hfilter
    exact hfilter
  refine ⟨1 + more, by omega, ?_, ?_, ?_⟩
  · intro ndt hndt heq
    apply hfree
    rw [← heq]
    refine mem_filter.mpr ⟨mem_map_of_mem hndt, ?_⟩
    rw [heq, isPrefixOf_iff_prefix]
    exact prefix_append _ _
  · intro hascii
    have hre : formatAscii ['^'] (nameBody ndev.devname) ['$'] = .ok (newNameRe ndev.devname) :=
      formatAscii_eq_ok.mpr ⟨(asciiChars_nameBody _).mpr hascii, rfl⟩
    have hdescription := formatAscii_eq_ok.mpr ⟨hascii,
      (rfl : "autogenerated from '".toList ++ ndev.devname ++ ['\''] = _)⟩
    unfold createNewType
    exact (bind_of_ok hre).trans ((bind_of_ok hname).trans (bind_of_ok hdescription))
  · intro hascii
    have hre : formatAscii ['^'] (nameBody ndev.devname) ['$'] = .error .unicodeEncodeError :=
      if_neg fun h => hascii ((asciiChars_nameBody _).mp h)
    unfold createNewType
    show (formatAscii ['^'] (nameBody ndev.devname) ['$'] >>= _) = _
    rw [hre]
    rfl

variable {ndts : List NetworkDeviceType} {re : ReLibrary} {ndev : Netdevice}

theorem save_createdType
    {idx : Nat} {ndt : NetworkDeviceType} (h : (createdType ndts ndev idx).save re ndts = .ok ndt) :
    ndt = createdType ndts ndev idx ∧ (createdType ndts ndev idx).preSave re = .ok ndt ∧
      (newNameRe ndev.devname).length ≤ 128 := by
  rcases exists_of_bind h with ⟨saved, hsaved, hstored⟩
  have hidentifier : (createdType ndts ndev idx).identifier = autogenName idx := rfl
  rcases (NetworkDeviceType.preSave_eq_ok hidentifier rfl).mp hsaved with ⟨_, _, _, rfl⟩
  -- the refused columns and identifiers are errors
  split_ifs at hstored with hcolumns hused
  injection hstored with hstored
  subst hstored
  rw [not_or, not_or] at hcolumns
  exact ⟨rfl, hsaved, not_lt.mp hcolumns.right.left⟩

theorem save_createdType_ok
    {idx : Nat} (hname : (re.compile (newNameRe ndev.devname)).isSome = true)
    (hcolumn : (newNameRe ndev.devname).length ≤ 128) (hlength : ndev.devname.length ≤ 63)
    (hbytes : 6 ≤ macBytesOf ndev.macaddr) (hidx : idx ≤ ndts.length + 1)
    (hrows : ndts.length < 2 ^ 31)
    (hfree : forall ndt, ndt ∈ ndts -> ndt.identifier ≠ autogenName idx) :
    (createdType ndts ndev idx).preSave re = .ok (createdType ndts ndev idx) ∧
      (createdType ndts ndev idx).save re ndts = .ok (createdType ndts ndev idx) := by
  have hmin : (createdType ndts ndev idx).macBytes = 6 := min_eq_left hbytes
  have hsaved : (createdType ndts ndev idx).preSave re = .ok (createdType ndts ndev idx) :=
    (NetworkDeviceType.preSave_eq_ok rfl rfl).mpr ⟨hname, by omega, by omega, rfl⟩
  have hidentifier : (createdType ndts ndev idx).identifier.length ≤ 18 :=
    autogenName_length (by omega)
  have hdescription : (createdType ndts ndev idx).description.length ≤ 192 := by
    show ("autogenerated from '".toList ++ ndev.devname ++ ['\'']).length ≤ 192
    rw [length_append, length_append]
    show 20 + ndev.devname.length + 1 ≤ 192
    omega
  have hunused : ndts.any (fun other =>
      other.identifier == (createdType ndts ndev idx).identifier) ≠ true := by
    intro hused
    rcases any_eq_true.mp hused with ⟨other, hother, heq⟩
    exact hfree other hother (beq_iff_eq.mp heq)
  refine ⟨hsaved, (bind_of_ok hsaved).trans ?_⟩
  have hcolumns : ¬ (48 < (createdType ndts ndev idx).identifier.length ∨
      128 < (createdType ndts ndev idx).nameRe.length ∨
      192 < (createdType ndts ndev idx).description.length) := by
    have hnameRe : (createdType ndts ndev idx).nameRe.length ≤ 128 := hcolumn
    omega
  rw [if_neg hcolumns, if_neg hunused]

theorem matchName_createdType {idx : Nat} :
    (createdType ndts ndev idx).matchName re ndev.devname = .ok true <->
      SelfMatching re ndev.devname := by
  have hwhole : ¬ ((createdType ndts ndev idx).allowVirtualInterfaces = true ∧
      ndev.devname.count ':' = 1) := fun h => by cases h.left
  have hpattern : (createdType ndts ndev idx).nameRe = newNameRe ndev.devname := rfl
  unfold NetworkDeviceType.matchName SelfMatching
  rw [if_neg hwhole, hpattern]
  cases hcompile : re.compile (newNameRe ndev.devname) with
  | none =>
    refine iff_of_false (fun h => by cases h) ?_
    rintro ⟨accepts, haccepts, _⟩
    cases haccepts
  | some accepts =>
    constructor
    · intro h
      exact ⟨accepts, rfl, Except.ok.inj h⟩
    · rintro ⟨accepts', haccepts, hmatch⟩
      injection haccepts with haccepts
      rw [haccepts]
      exact congrArg Except.ok hmatch

theorem checkMaster_cut (inst : Netdevice) : checkMaster inst.cut = checkMaster inst := rfl

theorem netdevicePreSave_ok {tables : NetdeviceTables} {inst : Netdevice}
    {ndt : NetworkDeviceType} (h : CausesCreation re tables inst)
    (hndt : createNewType re tables.ndts inst.cut = .ok ndt) (hbytes : ndt.macBytes = 6)
    (hmac : MacSpelled 6 inst.macaddr)
    (hfake : strip inst.fakeMacaddr = [] ∨ MacSpelled 6 inst.fakeMacaddr) :
    exists saved, netdevicePreSave re tables inst = .ok saved ∧
      saved.networkDeviceTypeId = some ndt.pk := by
  rcases h.speed with ⟨speed, hspeed⟩
  rcases checkMacs_ok hmac hfake with ⟨macs, hmacs⟩
  have hchosen : chooseType re tables inst.cut = .ok ndt := by
    unfold chooseType
    rw [if_pos (show inst.cut.forceNetworkDeviceTypeMatch = true from h.force)]
    refine (bind_of_ok h.noType).trans ?_
    show (if tables.createNetworkDeviceTypes = true then createNewType re tables.ndts inst.cut
      else _) = _
    rw [if_pos h.creates]
    exact hndt
  have hsavedMacs : savedMacs ndt inst.cut = .ok macs := by
    unfold savedMacs
    rw [if_pos (show inst.cut.forceNetworkDeviceTypeMatch = true from h.force), hbytes,
      show checkMacs 6 (lowerColons inst.cut.macaddr) (lowerColons inst.cut.fakeMacaddr) = .ok macs
        from hmacs]
  rcases Option.ne_none_iff_exists'.mp h.penalty with ⟨penalty, hpenalty⟩
  have hmtu : ¬ (inst.cut.mtu < 0 ∨ 65536 < inst.cut.mtu) := by
    rw [not_or, not_lt, not_lt]
    exact h.mtu
  unfold netdevicePreSave
  dsimp only
  rw [if_neg h.devname, if_neg hmtu, if_neg h.unused, bind_of_ok hchosen,
    show inst.cut.penalty = some penalty from hpenalty]
  dsimp only
  rw [bind_of_ok hsavedMacs, checkMaster_cut, bind_of_ok h.master,
    show chooseSpeed tables inst.cut = .ok speed from hspeed]
  exact ⟨_, rfl, rfl⟩

/-- A created type fits its device exactly when name and address can be used as they are.  Names
without the characters of the pattern language match themselves, and literal names only these. -/
theorem created_type_fits_iff (re : ReLibrary) :
    (forall (tables : NetdeviceTables) (inst : Netdevice) (bytes : Nat),
      CausesCreation re tables inst -> 6 ≤ bytes -> bytes ≤ 24 ->
      MacSpelled bytes inst.macaddr ->
      (strip inst.fakeMacaddr = [] ∨ MacSpelled bytes inst.fakeMacaddr) ->
      (CreatedFits re tables inst bytes <-> UsableForType re inst.cut.devname bytes)) ∧
    (forall name, PlainName name -> SelfMatching re name) ∧
    forall name, LiteralName name ->
      (SelfMatching re name <-> forall c, c ∈ name -> c ∉ unmatchedChars) := by
  refine ⟨?_, fun name => selfMatching_of_plain re, fun name => selfMatching_literal_iff re⟩
  intro tables inst bytes hcauses hlow _ hmac hfake
  rcases createNewType_eq re tables.ndts inst.cut with ⟨idx, hidx, hfree, hascii, hother⟩
  have hbytes : macBytesOf inst.cut.macaddr = bytes := hmac.macBytesOf_eq
  constructor
  · rintro ⟨ndt, saved, hndt, _, hmatch, hmacBytes, _, _⟩
    by_cases hname : asciiChars inst.cut.devname = true
    · rw [hascii hname] at hndt
      rcases save_createdType hndt with ⟨rfl, _, hcolumn⟩
      have hmin : min 6 (macBytesOf inst.cut.macaddr) = bytes := hmacBytes
      exact
        { ascii := hname
          selfMatching := matchName_createdType.mp hmatch
          column := hcolumn
          bytes := by omega }
    · rw [hother hname] at hndt
      cases hndt
  · intro husable
    have hsix := husable.bytes
    subst hsix
    rcases husable.selfMatching with ⟨accepts, hcompile, _⟩
    have hlength : inst.cut.devname.length ≤ 63 := length_take_le 63 inst.devname
    rcases save_createdType_ok (by rw [hcompile]; rfl) husable.column hlength (by omega) hidx
      hcauses.rows hfree with ⟨hchecked, hsaved⟩
    have hndt : createNewType re tables.ndts inst.cut =
        .ok (createdType tables.ndts inst.cut idx) := by
      rw [hascii husable.ascii, hsaved]
    have hmin : (createdType tables.ndts inst.cut idx).macBytes = 6 := by
      show min 6 (macBytesOf inst.cut.macaddr) = 6
      omega
    rcases netdevicePreSave_ok hcauses hndt hmin hmac hfake with ⟨saved, hpreSave, htype⟩
    exact ⟨_, saved, hndt, hchecked, matchName_createdType.mpr husable.selfMatching, hmin, hpreSave,
      htype⟩

/-- Patterns that are left open are errors here. -/
def sampleRe : ReLibrary where
  leftOpen := fun _ => none
  exceptInfo := fun _ => []

def ethernetType : NetworkDeviceType where
  pk := 1
  identifier := "eth".toList
  nameRe := "^eth\\d+$".toList
  description := "ethernet devices".toList
  macBytes := 6
  allowVirtualInterfaces := true
  forMatching := true
  autoCreated := false

def sampleTables : NetdeviceTables where
  ndts := [ethernetType]
  ndNames := ["eth0".toList]
  rank := NetworkDeviceType.pk
  defaultSpeed := some 1
  createNetworkDeviceTypes := true

def sampleDevice (devname macaddr : Text) : Netdevice where
  pk := none
  devname := devname
  macaddr := macaddr
  fakeMacaddr := []
  mtu := 1500
  forceNetworkDeviceTypeMatch := true
  networkDeviceTypeId := none
  vlanId := some 0
  penalty := some 1
  masterDevice := none
  netdeviceSpeedId := none

def wirelessDevice : Netdevice := sampleDevice "wlp3s0.1".toList "00-1B-77-aa-bb-cc".toList

/-- A device whose address has eight bytes. -/
def infinibandDevice : Netdevice := sampleDevice "ib0".toList "00:11:22:33:44:55:66:77".toList

theorem causesCreation_wireless : CausesCreation sampleRe sampleTables wirelessDevice where
  force := rfl
  devname := by decide
  unused := by decide
  mtu := by decide
  noType := rfl
  creates := rfl
  rows := by decide
  penalty := by decide
  master := rfl
  speed := ⟨1, rfl⟩

theorem causesCreation_infiniband : CausesCreation sampleRe sampleTables infinibandDevice where
  force := rfl
  devname := by decide
  unused := by decide
  mtu := by decide
  noType := rfl
  creates := rfl
  rows := by decide
  penalty := by decide
  master := rfl
  speed := ⟨1, rfl⟩

theorem macSpelled_wireless : MacSpelled 6 wirelessDevice.macaddr :=
  .more (by decide) (by decide) (by decide) <|
  .more (by decide) (by decide) (by decide) <|
  .more (by decide) (by decide) (by decide) <|
  .more (by decide) (by decide) (by decide) <|
  .more (by decide) (by decide) (by decide) <|
  .last (by decide) (by decide)

theorem macSpelled_infiniband : MacSpelled 8 infinibandDevice.macaddr :=
  .more (by decide) (by decide) (by decide) <|
  .more (by decide) (by decide) (by decide) <|
  .more (by decide) (by decide) (by decide) <|
  .more (by decide) (by decide) (by decide) <|
  .more (by decide) (by decide) (by decide) <|
  .more (by decide) (by decide) (by decide) <|
  .more (by decide) (by decide) (by decide) <|
  .last (by decide) (by decide)

/-- The created type of a device with eight bytes has six. -/
theorem infiniband_does_not_fit :
    ¬ forall (re : ReLibrary) (tables : NetdeviceTables) (inst : Netdevice) (bytes : Nat),
      CausesCreation re tables inst -> 6 ≤ bytes -> bytes ≤ 24 ->
      MacSpelled bytes inst.macaddr ->
      (strip inst.fakeMacaddr = [] ∨ MacSpelled bytes inst.fakeMacaddr) ->
      CreatedFits re tables inst bytes := by
  intro h
  rcases h sampleRe sampleTables infinibandDevice 8 causesCreation_infiniband (by decide)
    (by decide) macSpelled_infiniband (Or.inl rfl) with ⟨ndt, _, hndt, _, _, hbytes, _⟩
  rcases createNewType_eq sampleRe sampleTables.ndts infinibandDevice.cut with
    ⟨idx, _, _, hascii, _⟩
  rw [hascii (by decide)] at hndt
  rcases save_createdType hndt with ⟨rfl, _, _⟩
  have hsix : min 6 (macBytesOf infinibandDevice.macaddr) = 8 := hbytes
  exact absurd hsix (by decide)

theorem wireless_fits : CreatedFits sampleRe sampleTables wirelessDevice 6 := by
  apply ((created_type_fits_iff sampleRe).left sampleTables wirelessDevice 6
    causesCreation_wireless (by decide) (by decide) macSpelled_wireless (Or.inl rfl)).mpr
  exact
    { ascii := by decide
      selfMatching := (created_type_fits_iff sampleRe).right.left _
        { chars := by decide
          braces := by decide }
      column := by decide
      bytes := rfl }

/-- A plus is not matched by itself. -/
example : (sampleRe.compile (newNameRe "wan+0".toList)).map (fun accepts => accepts "wan+0".toList) =
    some false := by decide +kernel

end Icsw.Network
