import Icsw.Network.NetIp

/-!
# Saved networks are consistent

The addresses that the handler computes belong together, apart from a broadcast address that is
taken as it is..  When the addresses have to become unique nothing of this is saved, and a range has
nothing to be compared with.
-/

namespace Icsw.Network

open Foundation

@[ext]
structure AddressPlan where
  network : Address
  netmask : Address
  broadcast : Address
  gateway : Address

structure Coherent (plan : AddressPlan) : Prop where
  netmask : plan.netmask.IsNetmask
  network : plan.network.both plan.netmask = plan.network
  broadcast : plan.broadcast = plan.network.either plan.netmask.not
  gateway : plan.gateway.both plan.netmask = plan.network

variable (inst : NetworkInstance)

structure Reads (plan : AddressPlan) : Prop where
  network : QuadText inst.network plan.network
  netmask : QuadText inst.netmask plan.netmask
  broadcast : QuadText inst.broadcast plan.broadcast
  gateway : QuadText inst.gateway plan.gateway

/-- A value other than the default lies strictly between the two addresses. -/
def Inside (value : Option Text) (lowest last : Address) : Prop :=
  ignoredRange value = false -> exists text ip, value = some text ∧ QuadText text ip ∧
    lowest.number < ip.number ∧ ip.number < last.number

def Consistent (saved : NetworkInstance) : Prop :=
  exists plan, Reads saved plan ∧ Coherent plan ∧
    Inside saved.startRange plan.network plan.broadcast ∧
      Inside saved.endRange plan.network plan.broadcast

/-- What is saved is consistent, and nothing but a validation error is raised. -/
def SavesConsistently : Prop :=
  match networkPreSave inst with
  | .ok saved => Consistent saved
  | .error (.validationError _) => True
  | .error _ => False

/-- An address of version 4, or one of version 6. -/
def HoldsAddress (text : Text) : Prop := (exists ip, QuadText text ip) ∨ ':' ∈ text

structure FieldsValid : Prop where
  network : HoldsAddress inst.network
  netmask : HoldsAddress inst.netmask
  broadcast : HoldsAddress inst.broadcast
  gateway : HoldsAddress inst.gateway
  startRange : forall text, inst.startRange = some text -> text ≠ [] -> HoldsAddress text
  endRange : forall text, inst.endRange = some text -> text ≠ [] -> HoldsAddress text

def changeOf : ChangeAttribute := inst.changeAttribute.getD .network

variable (changeAttr : ChangeAttribute)

def impliedMask (plan : AddressPlan) : Address :=
  match changeAttr with
  | .broadcast => (plan.broadcast.both plan.network.not).not
  | _ => plan.netmask

structure Unopposed (plan : AddressPlan) : Prop where
  penalty : checkPenalty inst.penalty = .ok ()
  networkType : checkType inst = .ok ()
  reads : Reads inst plan
  netmask : (impliedMask (changeOf inst) plan).IsNetmask

def Fits (plan : AddressPlan) : Prop :=
  match changeAttr with
  | .network | .netmask => True
  | .broadcast => plan.network.both plan.broadcast = plan.network
  | .gateway => plan.broadcast = (plan.network.both plan.netmask).either plan.netmask.not

def lowest (plan : AddressPlan) : Address :=
  match changeAttr with
  | .broadcast => plan.network
  | _ => plan.network.both plan.netmask

def last (plan : AddressPlan) : Address :=
  match changeAttr with
  | .network | .netmask => (plan.network.both plan.netmask).either plan.netmask.not
  | .broadcast => plan.network.either plan.broadcast
  | .gateway =>
    (plan.network.both plan.netmask).either (plan.broadcast.both plan.netmask.not)

def BothSet : Prop :=
  ignoredRange inst.startRange = false ∧ ignoredRange inst.endRange = false

def ReadsRange (startRange endRange : Address) : Prop :=
  QuadText (inst.startRange.getD []) startRange ∧ QuadText (inst.endRange.getD []) endRange

structure PlainSound (plan : AddressPlan) : Prop where
  checked : BothSet inst -> forall startRange endRange, ReadsRange inst startRange endRange ->
    startRange.number ≤ endRange.number ->
      (lowest (changeOf inst) plan).number < startRange.number ->
        endRange.number < (last (changeOf inst) plan).number -> Fits (changeOf inst) plan
  unchecked : ¬ BothSet inst -> Fits (changeOf inst) plan ∧
    Inside inst.startRange (lowest (changeOf inst) plan) (last (changeOf inst) plan) ∧
      Inside inst.endRange (lowest (changeOf inst) plan) (last (changeOf inst) plan)

/-- The network is consistent as it is given, and a range is in no order. -/
structure ToggledSound (plan : AddressPlan) : Prop where
  checked : BothSet inst -> forall startRange endRange, ReadsRange inst startRange endRange ->
    endRange.number < startRange.number
  unchecked : ¬ BothSet inst -> Coherent plan ∧
    Inside inst.startRange plan.network plan.broadcast ∧
      Inside inst.endRange plan.network plan.broadcast

def HoldsWhen : Prop :=
  forall plan, Unopposed inst plan ->
    (toggled inst = false -> PlainSound inst plan) ∧
      (toggled inst = true -> repeated inst.netIps = [] -> ToggledSound inst plan)

def Refuses {α : Type} (result : Except PyError α) : Prop :=
  exists message, result = .error (.validationError message)

theorem refuses_invalid {α : Type} (message : Text) :
    Refuses (invalid message : Except PyError α) := ⟨message, rfl⟩

theorem Refuses.bind {α β : Type} {first : Except PyError α} (h : Refuses first)
    (next : α -> Except PyError β) : Refuses (first >>= next) := by
  rcases h with ⟨message, rfl⟩
  exact ⟨message, rfl⟩

theorem Refuses.after {α β : Type} {first : Except PyError α} {next : α -> Except PyError β}
    {value : α} (hfirst : first = .ok value) (h : Refuses (next value)) :
    Refuses (first >>= next) := by
  rw [hfirst]
  exact h

theorem savesConsistently_of_refuses {inst : NetworkInstance} (h : Refuses (networkPreSave inst)) :
    SavesConsistently inst := by
  rcases h with ⟨message, hraised⟩
  rw [SavesConsistently, hraised]
  trivial

theorem checkPenalty_cases (penalty : Option Int) :
    checkPenalty penalty = .ok () ∨ Refuses (checkPenalty penalty) := by
  cases penalty with
  | none => exact Or.inr (refuses_invalid _)
  | some value =>
    rw [checkPenalty]
    split
    · exact Or.inr (refuses_invalid _)
    · exact Or.inl rfl

theorem checkType_cases : checkType inst = .ok () ∨ Refuses (checkType inst) := by
  rw [checkType]
  split
  · exact Or.inr (refuses_invalid _)
  split
  · exact Or.inr (refuses_invalid _)
  split
  · cases inst.masterType with
    | none => exact Or.inr (refuses_invalid _)
    | some identifier =>
      dsimp only
      split
      · exact Or.inr (refuses_invalid _)
      · exact Or.inl rfl
  · exact Or.inl rfl

def ofPlan (plan : AddressPlan) : Addresses where
  network := Ipv4.ofAddress plan.network
  netmask := Ipv4.ofAddress plan.netmask
  broadcast := Ipv4.ofAddress plan.broadcast
  gateway := Ipv4.ofAddress plan.gateway

variable {text : Text}

theorem QuadText.unique {ip other : Address} (h : QuadText text ip)
    (hother : QuadText text other) : ip = other := h.spells.unique hother.spells

theorem Reads.unique {inst : NetworkInstance} {plan other : AddressPlan} (h : Reads inst plan)
    (hother : Reads inst other) : plan = other :=
  AddressPlan.ext (h.network.unique hother.network) (h.netmask.unique hother.netmask)
    (h.broadcast.unique hother.broadcast) (h.gateway.unique hother.gateway)

theorem readAddress_quad {ip : Address} (key : Text) (h : QuadText text ip) :
    readAddress key text = .ok (Ipv4.ofAddress ip) := by
  rw [readAddress, ofText_quad h]

theorem readAddress_colon (key : Text) (h : ':' ∈ text) :
    Refuses (readAddress key text) := by
  rcases ofText_colon h with ⟨raised, hraised⟩
  rw [readAddress, hraised]
  exact refuses_invalid _

theorem readAddresses_of_reads {inst : NetworkInstance} {plan : AddressPlan}
    (h : Reads inst plan) : readAddresses inst = .ok (ofPlan plan) := by
  rw [readAddresses, readAddress_quad _ h.broadcast, readAddress_quad _ h.netmask,
    readAddress_quad _ h.network, readAddress_quad _ h.gateway]
  rfl

theorem readAddresses_cases {inst : NetworkInstance} (hvalid : FieldsValid inst) :
    (exists plan, Reads inst plan) ∨ Refuses (readAddresses inst) := by
  rw [readAddresses]
  rcases hvalid.broadcast with ⟨broadcast, hbroadcast⟩ | hcolon
  swap
  · exact Or.inr ((readAddress_colon _ hcolon).bind _)
  rcases hvalid.netmask with ⟨netmask, hnetmask⟩ | hcolon
  swap
  · exact Or.inr (.after (readAddress_quad _ hbroadcast) ((readAddress_colon _ hcolon).bind _))
  rcases hvalid.network with ⟨network, hnetwork⟩ | hcolon
  swap
  · exact Or.inr (.after (readAddress_quad _ hbroadcast) (.after (readAddress_quad _ hnetmask)
      ((readAddress_colon _ hcolon).bind _)))
  rcases hvalid.gateway with ⟨gateway, hgateway⟩ | hcolon
  swap
  · exact Or.inr (.after (readAddress_quad _ hbroadcast) (.after (readAddress_quad _ hnetmask)
      (.after (readAddress_quad _ hnetwork) ((readAddress_colon _ hcolon).bind _))))
  exact Or.inl ⟨⟨network, netmask, broadcast, gateway⟩, hnetwork, hnetmask, hbroadcast, hgateway⟩

def AddressPlan.derive (plan : AddressPlan) (changeAttr : ChangeAttribute) : AddressPlan :=
  match changeAttr with
  | .network | .netmask =>
    { plan with broadcast := plan.netmask.not.either (plan.network.both plan.netmask) }
  | .broadcast => { plan with netmask := (plan.broadcast.both plan.network.not).not }
  | .gateway => plan

def AddressPlan.correct (plan : AddressPlan) : AddressPlan :=
  { plan with
    network := plan.network.both plan.netmask
    gateway := (plan.gateway.both plan.netmask.not).either (plan.network.both plan.netmask) }

theorem deriveAddress_ofPlan (plan : AddressPlan) :
    deriveAddress changeAttr (ofPlan plan) = .ok (ofPlan (plan.derive changeAttr)) := by
  have hhosts := invert_ofAddress plan.netmask
  have hnetwork := and_ofAddress plan.network plan.netmask
  have hlast := or_ofAddress plan.netmask.not (plan.network.both plan.netmask)
  have hothers := invert_ofAddress plan.network
  have hbetween := and_ofAddress plan.broadcast plan.network.not
  have hnetmask := invert_ofAddress (plan.broadcast.both plan.network.not)
  cases changeAttr with
  | network | netmask => exact bind_eq_ok hhosts (bind_eq_ok hnetwork (bind_eq_ok hlast rfl))
  | broadcast => exact bind_eq_ok hothers (bind_eq_ok hbetween (bind_eq_ok hnetmask rfl))
  | gateway => rfl

theorem correctAddresses_ofPlan (plan : AddressPlan) :
    correctAddresses (ofPlan plan) = .ok (ofPlan plan.correct) := by
  have hnetwork := and_ofAddress plan.network plan.netmask
  have hhosts := invert_ofAddress plan.netmask
  have hplace := and_ofAddress plan.gateway plan.netmask.not
  have hgateway := or_ofAddress (plan.gateway.both plan.netmask.not)
    (plan.network.both plan.netmask)
  exact bind_eq_ok hnetwork (bind_eq_ok hhosts (bind_eq_ok hplace (bind_eq_ok hgateway rfl)))

theorem highest_ofPlan (plan : AddressPlan) :
    highest (ofPlan plan) =
      .ok (Ipv4.ofAddress (plan.network.either (plan.broadcast.both plan.netmask.not))) := by
  have hhosts := invert_ofAddress plan.netmask
  have hplace := and_ofAddress plan.broadcast plan.netmask.not
  have hhighest := or_ofAddress plan.network (plan.broadcast.both plan.netmask.not)
  exact bind_eq_ok hhosts (bind_eq_ok hplace hhighest)

/-- With `idx` bits still to come the netmask in question ends with that many zeros. -/
theorem anyMatch_iff (idx : Nat) (value : Int) :
    anyMatch idx (2 ^ 32 - 2 ^ idx) value = true <->
      exists zeros, zeros ≤ idx ∧ value = 2 ^ 32 - 2 ^ zeros := by
  induction idx with
  | zero =>
    rw [anyMatch, decide_eq_true_iff]
    constructor
    · intro h
      exact ⟨0, le_refl 0, h.symm⟩
    · rintro ⟨zeros, hzeros, h⟩
      rw [Nat.le_zero.mp hzeros] at h
      exact h.symm
  | succ idx ih =>
    have hnext : (2 : Int) ^ 32 - 2 ^ (idx + 1) + 2 ^ idx = 2 ^ 32 - 2 ^ idx := by
      rw [Int.pow_succ]
      omega
    rw [anyMatch, Bool.or_eq_true, decide_eq_true_iff, hnext, ih]
    constructor
    · rintro (h | ⟨zeros, hzeros, h⟩)
      · exact ⟨idx + 1, le_refl _, h.symm⟩
      · exact ⟨zeros, Nat.le_succ_of_le hzeros, h⟩
    · rintro ⟨zeros, hzeros, h⟩
      rcases Nat.eq_or_lt_of_le hzeros with rfl | hless
      · exact Or.inl h.symm
      · exact Or.inr ⟨zeros, Nat.le_of_lt_succ hless, h⟩

theorem checkNetmask_iff (mask : Address) :
    anyMatch 32 0 (Ipv4.ofAddress mask).value = true <-> mask.IsNetmask := by
  have hmatch := anyMatch_iff 32 (Ipv4.ofAddress mask).value
  rw [value_ofAddress] at hmatch ⊢
  refine hmatch.trans ?_
  constructor
  · rintro ⟨zeros, hzeros, h⟩
    refine ⟨32 - zeros, Nat.sub_le 32 zeros, ?_⟩
    have hle : 2 ^ zeros ≤ 2 ^ 32 := Nat.pow_le_pow_right (by decide) hzeros
    rw [Nat.sub_sub_self hzeros, ← Int.natCast_inj, Nat.cast_sub hle, h]
    push_cast
    rfl
  · rintro ⟨bits, hbits, h⟩
    refine ⟨32 - bits, Nat.sub_le 32 bits, ?_⟩
    have hle : 2 ^ (32 - bits) ≤ 2 ^ 32 := Nat.pow_le_pow_right (by decide) (Nat.sub_le 32 bits)
    rw [h, Nat.cast_sub hle]
    push_cast
    rfl

section Derived

variable (changeAttr : ChangeAttribute) (plan : AddressPlan)

theorem network_derive : ((plan.derive changeAttr).correct).network = lowest changeAttr plan := by
  cases changeAttr with
  | broadcast => exact Address.both_not_both_not plan.network plan.broadcast
  | network => rfl
  | netmask => rfl
  | gateway => rfl

theorem netmask_derive :
    ((plan.derive changeAttr).correct).netmask = impliedMask changeAttr plan := by
  cases changeAttr <;> rfl

theorem fits_iff :
    ((plan.derive changeAttr).correct).broadcast =
      (lowest changeAttr plan).either (impliedMask changeAttr plan).not <->
        Fits changeAttr plan := by
  cases changeAttr with
  | network | netmask => exact iff_of_true (Address.either_comm _ _) trivial
  | broadcast =>
    show plan.broadcast = plan.network.either ((plan.broadcast.both plan.network.not).not).not <->
      plan.network.both plan.broadcast = plan.network
    rw [Address.not_not, Address.either_both_not]
    exact Address.eq_either_iff plan.network plan.broadcast
  | gateway => exact Iff.rfl

theorem last_of_fits (h : Fits changeAttr plan) :
    last changeAttr plan = ((plan.derive changeAttr).correct).broadcast := by
  have hfits := (fits_iff changeAttr plan).mpr h
  cases changeAttr with
  | network => exact hfits.symm
  | netmask => exact hfits.symm
  | broadcast => exact ((Address.eq_either_iff plan.network plan.broadcast).mpr h).symm
  | gateway =>
    have hbroadcast : plan.broadcast =
        (plan.network.both plan.netmask).either plan.netmask.not := h
    show (plan.network.both plan.netmask).either (plan.broadcast.both plan.netmask.not) =
      plan.broadcast
    rw [hbroadcast, Address.either_both_either]

theorem highest_derive :
    highest (ofPlan (plan.derive changeAttr).correct) =
      .ok (Ipv4.ofAddress (last changeAttr plan)) := by
  have hmasked : (plan.network.both plan.netmask).either
      ((plan.netmask.not.either (plan.network.both plan.netmask)).both plan.netmask.not) =
        (plan.network.both plan.netmask).either plan.netmask.not := by
    rw [Address.either_comm plan.netmask.not, Address.either_both_either]
  rw [highest_ofPlan, network_derive, netmask_derive]
  cases changeAttr with
  | network | netmask => exact congrArg (fun ip => Except.ok (Ipv4.ofAddress ip)) hmasked
  | broadcast =>
    have hbetween : plan.network.either (plan.broadcast.both
        ((plan.broadcast.both plan.network.not).not).not) = plan.network.either plan.broadcast := by
      rw [Address.not_not, Address.both_both_self_left, Address.either_both_not]
    exact congrArg (fun ip => Except.ok (Ipv4.ofAddress ip)) hbetween
  | gateway => rfl

theorem coherent_derive (hmask : (impliedMask changeAttr plan).IsNetmask) :
    Coherent (plan.derive changeAttr).correct <-> Fits changeAttr plan := by
  rw [← fits_iff, ← network_derive, ← netmask_derive]
  constructor
  · exact Coherent.broadcast
  · intro h
    exact ⟨(netmask_derive changeAttr plan).symm ▸ hmask, Address.both_both_right _ _, h,
      Address.placed_both _ _ _⟩

end Derived

variable {inst : NetworkInstance}

theorem ReadsRange.unique {startRange endRange otherStart otherEnd : Address}
    (h : ReadsRange inst startRange endRange) (hother : ReadsRange inst otherStart otherEnd) :
    startRange = otherStart ∧ endRange = otherEnd :=
  ⟨h.left.unique hother.left, h.right.unique hother.right⟩

theorem not_quad_of_colon (h : ':' ∈ text) (ip : Address) : ¬ QuadText text ip := by
  intro hquad
  rcases ofText_colon h with ⟨raised, hraised⟩
  rw [ofText_quad hquad] at hraised
  cases hraised

theorem checkRange_unset (h : ¬ BothSet inst)
    (ipDict : Option Addresses) : checkRange inst ipDict = .ok none := if_neg h

variable {startRange endRange : Address}

theorem checkRange_reads (hset : BothSet inst) (hreads : ReadsRange inst startRange endRange)
    (ipDict : Option Addresses) :
    checkRange inst ipDict =
      (checkLimits (Ipv4.ofAddress startRange) (Ipv4.ofAddress endRange) ipDict).map some := by
  refine (if_pos hset).trans ?_
  rw [ofText_quad hreads.left, ofText_quad hreads.right]

theorem holdsAddress_of_set {value : Option Text} (hset : ignoredRange value = false)
    (hvalid : forall text, value = some text -> text ≠ [] -> HoldsAddress text) :
    HoldsAddress (value.getD []) := by
  have hgiven := of_decide_eq_false hset
  cases value with
  | none => exact absurd (Or.inl rfl) hgiven
  | some text => exact hvalid text rfl fun hempty => hgiven (Or.inr (Or.inl (congrArg some hempty)))

theorem readsRange_cases (hvalid : FieldsValid inst) (hset : BothSet inst) :
    (exists startRange endRange, ReadsRange inst startRange endRange) ∨
      ((forall startRange endRange, ¬ ReadsRange inst startRange endRange) ∧
        forall ipDict, Refuses (checkRange inst ipDict)) := by
  rcases holdsAddress_of_set hset.left hvalid.startRange with ⟨startRange, hstart⟩ | hcolon
  swap
  · refine Or.inr ⟨fun _ _ hreads => not_quad_of_colon hcolon _ hreads.left, fun ipDict => ?_⟩
    rcases ofText_colon hcolon with ⟨raised, hraised⟩
    have hrange : checkRange inst ipDict = _ := if_pos hset
    rw [hrange, hraised]
    exact refuses_invalid _
  rcases holdsAddress_of_set hset.right hvalid.endRange with ⟨endRange, hend⟩ | hcolon
  swap
  · refine Or.inr ⟨fun _ _ hreads => not_quad_of_colon hcolon _ hreads.right, fun ipDict => ?_⟩
    rcases ofText_colon hcolon with ⟨raised, hraised⟩
    have hrange : checkRange inst ipDict = _ := if_pos hset
    rw [hrange, hraised]
    split
    · next hok => cases hok
    · exact refuses_invalid _
  exact Or.inl ⟨startRange, endRange, hstart, hend⟩

theorem checkLimits_unordered (ipDict : Option Addresses)
    (h : endRange.number < startRange.number) :
    Refuses (checkLimits (Ipv4.ofAddress startRange) (Ipv4.ofAddress endRange) ipDict) := by
  unfold checkLimits
  rw [if_pos ((lt_ofAddress endRange startRange).mpr h)]
  exact refuses_invalid _

theorem checkLimits_none (h : ¬ endRange.number < startRange.number) :
    checkLimits (Ipv4.ofAddress startRange) (Ipv4.ofAddress endRange) none = .error .keyError := by
  unfold checkLimits
  rw [if_neg fun hless => h ((lt_ofAddress endRange startRange).mp hless)]

variable {plan : AddressPlan}

theorem checkLimits_low (horder : ¬ endRange.number < startRange.number)
    (h : startRange.number ≤ plan.network.number) :
    Refuses (checkLimits (Ipv4.ofAddress startRange) (Ipv4.ofAddress endRange)
      (some (ofPlan plan))) := by
  unfold checkLimits
  rw [if_neg fun hless => horder ((lt_ofAddress endRange startRange).mp hless)]
  show Refuses (if (Ipv4.ofAddress startRange).le (Ipv4.ofAddress plan.network) = true then _
    else _)
  rw [if_pos ((le_ofAddress startRange plan.network).mpr h)]
  exact refuses_invalid _

theorem checkLimits_inside {startRange endRange upper : Address}
    (horder : ¬ endRange.number < startRange.number)
    (hlow : ¬ startRange.number ≤ plan.network.number)
    (hhighest : highest (ofPlan plan) = .ok (Ipv4.ofAddress upper)) :
    checkLimits (Ipv4.ofAddress startRange) (Ipv4.ofAddress endRange) (some (ofPlan plan)) =
      if (Ipv4.ofAddress endRange).ge (Ipv4.ofAddress upper) = true then
        invalid ("range end ".toList ++ (Ipv4.ofAddress endRange).str ++
          " is above or equal to highest IP ".toList ++ (Ipv4.ofAddress upper).str)
      else .ok (Ipv4.ofAddress startRange, Ipv4.ofAddress endRange) := by
  unfold checkLimits
  rw [if_neg fun hless => horder ((lt_ofAddress endRange startRange).mp hless)]
  show (if (Ipv4.ofAddress startRange).le (Ipv4.ofAddress plan.network) = true then _ else _) = _
  rw [if_neg fun hle => hlow ((le_ofAddress startRange plan.network).mp hle), hhighest]
  rfl

theorem networkPreSave_unopposed (h : Unopposed inst plan) :
    networkPreSave inst =
      (checkUnique inst (ofPlan (plan.derive (changeOf inst)).correct) >>= fun ipDict =>
        checkRange inst ipDict >>= fun range => .ok (withValues inst ipDict range)) := by
  have hderive : deriveAddress (inst.changeAttribute.getD .network) (ofPlan plan) =
      .ok (ofPlan (plan.derive (changeOf inst))) := deriveAddress_ofPlan (changeOf inst) plan
  have hmask : checkNetmask (ofPlan (plan.derive (changeOf inst))).netmask = .ok () :=
    if_pos ((checkNetmask_iff _).mpr ((netmask_derive (changeOf inst) plan).symm ▸ h.netmask))
  have hcorrect := correctAddresses_ofPlan (plan.derive (changeOf inst))
  rw [networkPreSave, bind_of_ok h.penalty, bind_of_ok h.networkType,
    bind_of_ok (readAddresses_of_reads h.reads), bind_of_ok hderive, bind_of_ok hmask,
    bind_of_ok hcorrect]
  rfl

theorem unopposed_or_refuses (hvalid : FieldsValid inst) :
    (exists plan, Unopposed inst plan) ∨ Refuses (networkPreSave inst) := by
  unfold networkPreSave
  rcases checkPenalty_cases inst.penalty with hpenalty | hrefuses
  swap
  · exact Or.inr (hrefuses.bind _)
  rcases checkType_cases inst with htype | hrefuses
  swap
  · exact Or.inr (.after hpenalty (hrefuses.bind _))
  rcases readAddresses_cases hvalid with ⟨plan, hreads⟩ | hrefuses
  swap
  · exact Or.inr (.after hpenalty (.after htype (hrefuses.bind _)))
  by_cases hmask : (impliedMask (changeOf inst) plan).IsNetmask
  · exact Or.inl ⟨plan, hpenalty, htype, hreads, hmask⟩
  · have hnetmask : Refuses (checkNetmask (ofPlan (plan.derive (changeOf inst))).netmask) := by
      have hmatch : ¬ anyMatch 32 0 (ofPlan (plan.derive (changeOf inst))).netmask.value = true :=
        fun hmatch => hmask (netmask_derive (changeOf inst) plan ▸ (checkNetmask_iff _).mp hmatch)
      rw [checkNetmask, if_neg hmatch]
      exact refuses_invalid _
    exact Or.inr (.after hpenalty (.after htype (.after (readAddresses_of_reads hreads)
      (.after (deriveAddress_ofPlan (changeOf inst) plan) (hnetmask.bind _)))))

theorem savesConsistently_of_ok {inst saved : NetworkInstance} (h : networkPreSave inst = .ok saved) :
    SavesConsistently inst <-> Consistent saved := by
  rw [SavesConsistently, h]

theorem not_savesConsistently_of_keyError
    (h : networkPreSave inst = .error .keyError) : ¬ SavesConsistently inst := by
  rw [SavesConsistently, h]
  exact id

theorem consistent_iff {saved : NetworkInstance} (h : Reads saved plan) :
    Consistent saved <-> Coherent plan ∧ Inside saved.startRange plan.network plan.broadcast ∧
      Inside saved.endRange plan.network plan.broadcast := by
  constructor
  · rintro ⟨other, hother, hsound⟩
    rwa [h.unique hother]
  · intro hsound
    exact ⟨plan, h, hsound⟩

theorem reads_withValues (inst : NetworkInstance) (plan : AddressPlan)
    (range : Option (Ipv4 × Ipv4)) : Reads (withValues inst (some (ofPlan plan)) range) plan := by
  cases range <;>
    exact ⟨str_ofAddress plan.network, str_ofAddress plan.netmask, str_ofAddress plan.broadcast,
      str_ofAddress plan.gateway⟩

theorem consistent_plain_unset (h : Unopposed inst plan) :
    Consistent (withValues inst (some (ofPlan (plan.derive (changeOf inst)).correct)) none) <->
      Fits (changeOf inst) plan ∧
        Inside inst.startRange (lowest (changeOf inst) plan) (last (changeOf inst) plan) ∧
          Inside inst.endRange (lowest (changeOf inst) plan) (last (changeOf inst) plan) := by
  rw [consistent_iff (reads_withValues inst _ none), coherent_derive (changeOf inst) plan h.netmask,
    network_derive]
  refine and_congr_right fun hfits => ?_
  rw [last_of_fits (changeOf inst) plan hfits]
  rfl

theorem inside_str {ip lower upper : Address} (hlower : lower.number < ip.number)
    (hupper : ip.number < upper.number) : Inside (some (Ipv4.ofAddress ip).str) lower upper :=
  fun _ => ⟨_, ip, rfl, str_ofAddress ip, hlower, hupper⟩

theorem consistent_plain_set (h : Unopposed inst plan)
    (horder : startRange.number ≤ endRange.number)
    (hlow : (lowest (changeOf inst) plan).number < startRange.number)
    (hhigh : endRange.number < (last (changeOf inst) plan).number) :
    Consistent (withValues inst (some (ofPlan (plan.derive (changeOf inst)).correct))
      (some (Ipv4.ofAddress startRange, Ipv4.ofAddress endRange))) <->
        Fits (changeOf inst) plan := by
  rw [consistent_iff (reads_withValues inst _ _), coherent_derive (changeOf inst) plan h.netmask,
    network_derive]
  refine ⟨And.left, fun hfits => ⟨hfits, ?_⟩⟩
  rw [← last_of_fits (changeOf inst) plan hfits]
  exact ⟨inside_str hlow (lt_of_le_of_lt horder hhigh),
    inside_str (lt_of_lt_of_le hlow horder) hhigh⟩

section Handler

variable {inst : NetworkInstance} {plan : AddressPlan}

theorem savesConsistently_plain (hvalid : FieldsValid inst) (h : Unopposed inst plan)
    (htoggled : toggled inst = false) : SavesConsistently inst <-> PlainSound inst plan := by
  have hunique : forall ipDict, checkUnique inst ipDict = .ok (some ipDict) := by
    intro ipDict
    rw [checkUnique, if_neg (ne_true_of_eq_false htoggled)]
  have hrun : networkPreSave inst =
      (checkRange inst (some (ofPlan (plan.derive (changeOf inst)).correct)) >>= fun range =>
        .ok (withValues inst (some (ofPlan (plan.derive (changeOf inst)).correct)) range)) := by
    rw [networkPreSave_unopposed h, hunique]
    rfl
  by_cases hset : BothSet inst
  swap
  · -- no range is compared with anything
    have hsaved := savesConsistently_of_ok
      (hrun.trans (bind_eq_ok (checkRange_unset hset _) rfl))
    rw [hsaved, consistent_plain_unset h]
    exact ⟨fun hsound => ⟨fun hboth => absurd hboth hset, fun _ => hsound⟩,
      fun hsound => hsound.unchecked hset⟩
  rcases readsRange_cases hvalid hset with ⟨startRange, endRange, hreads⟩ | ⟨hunread, hrefuses⟩
  swap
  · refine iff_of_true (savesConsistently_of_refuses ?_)
      ⟨fun _ _ _ hreads => absurd hreads (hunread _ _), fun hunset => absurd hset hunset⟩
    rw [hrun]
    exact (hrefuses _).bind _
  -- what the limits refuse is saved by nobody, and else the broadcast address decides
  have hrange := checkRange_reads hset hreads
    (some (ofPlan (plan.derive (changeOf inst)).correct))
  have hsound_iff : PlainSound inst plan <-> (startRange.number ≤ endRange.number ∧
      (lowest (changeOf inst) plan).number < startRange.number ∧
        endRange.number < (last (changeOf inst) plan).number -> Fits (changeOf inst) plan) := by
    constructor
    · rintro hsound ⟨horder, hlow, hhigh⟩
      exact hsound.checked hset startRange endRange hreads horder hlow hhigh
    · intro hfits
      refine ⟨fun _ otherStart otherEnd hother horder hlow hhigh => ?_, absurd hset⟩
      rcases hreads.unique hother with ⟨rfl, rfl⟩
      exact hfits ⟨horder, hlow, hhigh⟩
  have hrefused : Refuses (checkLimits (Ipv4.ofAddress startRange) (Ipv4.ofAddress endRange)
      (some (ofPlan (plan.derive (changeOf inst)).correct))) -> SavesConsistently inst := by
    rintro ⟨message, hraised⟩
    refine savesConsistently_of_refuses ⟨message, ?_⟩
    rw [hrun, hrange, hraised]
    rfl
  by_cases horder : endRange.number < startRange.number
  · refine iff_of_true (hrefused (checkLimits_unordered _ horder)) (hsound_iff.mpr ?_)
    exact fun hpassed => absurd horder (not_lt_of_ge hpassed.left)
  by_cases hlow : startRange.number ≤ (lowest (changeOf inst) plan).number
  · refine iff_of_true (hrefused (checkLimits_low horder ?_)) (hsound_iff.mpr ?_)
    · rwa [network_derive]
    · exact fun hpassed => absurd hlow (not_le_of_gt hpassed.right.left)
  have hinside := checkLimits_inside horder (by rwa [network_derive])
    (highest_derive (changeOf inst) plan)
  by_cases hhigh : (last (changeOf inst) plan).number ≤ endRange.number
  · refine iff_of_true (hrefused ?_) (hsound_iff.mpr ?_)
    · rw [hinside, if_pos ((ge_ofAddress _ _).mpr hhigh)]
      exact refuses_invalid _
    · exact fun hpassed => absurd hhigh (not_le_of_gt hpassed.right.right)
  · rw [if_neg fun hge => hhigh ((ge_ofAddress _ _).mp hge)] at hinside
    rw [hinside] at hrange
    have hsaved := savesConsistently_of_ok (hrun.trans (bind_eq_ok hrange rfl))
    rw [hsaved, consistent_plain_set h (not_lt.mp horder) (not_le.mp hlow) (not_le.mp hhigh),
      hsound_iff]
    exact ⟨fun hfits _ => hfits,
      fun hfits => hfits ⟨not_lt.mp horder, not_le.mp hlow, not_le.mp hhigh⟩⟩

theorem savesConsistently_toggled (hvalid : FieldsValid inst) (h : Unopposed inst plan)
    (htoggled : toggled inst = true) (hrepeated : repeated inst.netIps = []) :
    SavesConsistently inst <-> ToggledSound inst plan := by
  have hunique : forall ipDict, checkUnique inst ipDict = .ok none := by
    intro ipDict
    rw [checkUnique, if_pos htoggled, if_neg (not_not_intro hrepeated)]
  have hrun : networkPreSave inst =
      (checkRange inst none >>= fun range => .ok (withValues inst none range)) := by
    rw [networkPreSave_unopposed h, hunique]
    rfl
  by_cases hset : BothSet inst
  swap
  · have hsaved := savesConsistently_of_ok
      (hrun.trans (bind_eq_ok (checkRange_unset hset none) rfl))
    have hreads : Reads (withValues inst none none) plan := h.reads
    rw [hsaved, consistent_iff hreads]
    exact ⟨fun hsound => ⟨fun hboth => absurd hboth hset, fun _ => hsound⟩,
      fun hsound => hsound.unchecked hset⟩
  rcases readsRange_cases hvalid hset with ⟨startRange, endRange, hreads⟩ | ⟨hunread, hrefuses⟩
  swap
  · refine iff_of_true (savesConsistently_of_refuses ?_)
      ⟨fun _ _ _ hreads => absurd hreads (hunread _ _), fun hunset => absurd hset hunset⟩
    rw [hrun]
    exact (hrefuses none).bind _
  have hrange := checkRange_reads hset hreads none
  by_cases horder : endRange.number < startRange.number
  · rcases checkLimits_unordered none horder with ⟨message, hraised⟩
    refine iff_of_true (savesConsistently_of_refuses ⟨message, ?_⟩)
      ⟨fun _ otherStart otherEnd hother => ?_, absurd hset⟩
    · rw [hrun, hrange, hraised]
      rfl
    · rcases hreads.unique hother with ⟨rfl, rfl⟩
      exact horder
  · -- there is no network in the dictionary to compare with
    refine iff_of_false (not_savesConsistently_of_keyError ?_) fun hsound =>
      horder (hsound.checked hset startRange endRange hreads)
    rw [hrun, hrange, checkLimits_none horder]
    rfl

theorem savesConsistently_repeated (h : Unopposed inst plan) (htoggled : toggled inst = true)
    (hrepeated : repeated inst.netIps ≠ []) : SavesConsistently inst := by
  apply savesConsistently_of_refuses
  have hunique : Refuses
      (checkUnique inst (ofPlan (plan.derive (changeOf inst)).correct)) := by
    rw [checkUnique, if_pos htoggled, if_pos hrepeated]
    exact refuses_invalid _
  rw [networkPreSave_unopposed h]
  exact hunique.bind _

/-- Which addresses are given and which of the flags and ranges go with them decides. -/
theorem savesConsistently_iff (hvalid : FieldsValid inst) :
    SavesConsistently inst <-> HoldsWhen inst := by
  by_cases hnone : forall plan, ¬ Unopposed inst plan
  · have hrefuses := (unopposed_or_refuses hvalid).resolve_left (not_exists.mpr hnone)
    exact iff_of_true (savesConsistently_of_refuses hrefuses)
      fun plan h => absurd h (hnone plan)
  rcases not_forall_not.mp hnone with ⟨plan, h⟩
  have hplan : HoldsWhen inst <-> (toggled inst = false -> PlainSound inst plan) ∧
      (toggled inst = true -> repeated inst.netIps = [] -> ToggledSound inst plan) := by
    constructor
    · exact fun hholds => hholds plan h
    · intro hholds other hother
      rw [hother.reads.unique h.reads]
      exact hholds
  rw [hplan]
  cases htoggled : toggled inst with
  | false =>
    rw [savesConsistently_plain hvalid h htoggled]
    exact ⟨fun hsound => ⟨fun _ => hsound, fun htrue => absurd htrue Bool.false_ne_true⟩,
      fun hholds => hholds.left rfl⟩
  | true =>
    by_cases hrepeated : repeated inst.netIps = []
    · rw [savesConsistently_toggled hvalid h htoggled hrepeated]
      exact ⟨fun hsound => ⟨fun hfalse => absurd hfalse.symm Bool.false_ne_true,
        fun _ _ => hsound⟩, fun hholds => hholds.right rfl hrepeated⟩
    · exact iff_of_true (savesConsistently_repeated h htoggled hrepeated)
        ⟨fun hfalse => absurd hfalse.symm Bool.false_ne_true, fun _ hnone => absurd hnone hrepeated⟩

end Handler

def uniqueWithRange : NetworkInstance where
  penalty := some 1
  networkType := ['p']
  slaves := 0
  masterType := none
  network := "10.0.0.0".toList
  netmask := "255.255.255.0".toList
  broadcast := "10.0.0.255".toList
  gateway := "10.0.0.1".toList
  startRange := some "10.0.0.10".toList
  endRange := some "10.0.0.20".toList
  enforceUniqueIps := true
  preEnforceUniqueIps := false
  changeAttribute := none
  netIps := []

theorem fieldsValid_uniqueWithRange : FieldsValid uniqueWithRange := by
  have hquad : forall {text : Text} (ip : Address), text = (Ipv4.ofAddress ip).str ->
      HoldsAddress text := fun ip h => h ▸ Or.inl ⟨ip, str_ofAddress ip⟩
  refine ⟨hquad ⟨10, 0, 0, 0⟩ rfl, hquad ⟨255, 255, 255, 0⟩ rfl, hquad ⟨10, 0, 0, 255⟩ rfl,
    hquad ⟨10, 0, 0, 1⟩ rfl, ?_, ?_⟩
  · intro text htext _
    exact hquad ⟨10, 0, 0, 10⟩ (Option.some.inj htext.symm)
  · intro text htext _
    exact hquad ⟨10, 0, 0, 20⟩ (Option.some.inj htext.symm)

theorem savesConsistently_iff_uniqueWithRange :
    FieldsValid uniqueWithRange ∧
      (SavesConsistently uniqueWithRange <-> HoldsWhen uniqueWithRange) :=
  ⟨fieldsValid_uniqueWithRange, savesConsistently_iff fieldsValid_uniqueWithRange⟩

/-- The network that the range is compared with has been replaced by the addresses in use. -/
theorem uniqueWithRange_not_saved :
    FieldsValid uniqueWithRange ∧ networkPreSave uniqueWithRange = .error .keyError ∧
      ¬ SavesConsistently uniqueWithRange := by
  have hraised : networkPreSave uniqueWithRange = .error .keyError := rfl
  exact ⟨fieldsValid_uniqueWithRange, hraised, not_savesConsistently_of_keyError hraised⟩

end Icsw.Network
