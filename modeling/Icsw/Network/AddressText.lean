import Icsw.Network.Ipv4

/-!
# Texts that are addresses

A text is accepted when four of its parts are octets.  Parts beyond these are accepted with them
as long as they are integers, and an integer is never accepted.
-/

namespace Icsw.Network

open Foundation List

/-- Integers next to the four octets, with a sign in front of the text at most. -/
structure ExtraParts (text : Text) : Prop where
  octets : ((addressParts text).filter isOctet).length = 4
  more : 4 < (addressParts text).length
  integers : forall part, part ∈ addressParts text -> exists value, parseInt part = some value
  behind : forall part, part ∈ (addressParts text).tail ->
    forall value, parseInt part = some value -> 0 ≤ value

/-- The four numbers without leading zeros. -/
def canonical (ip : Address) : Text :=
  Nat.toDigits 10 ip.first.toNat ++ '.' :: (Nat.toDigits 10 ip.second.toNat ++ '.' ::
    (Nat.toDigits 10 ip.third.toNat ++ '.' :: Nat.toDigits 10 ip.fourth.toNat))

/-- What a text is read as is what equal numbers, or equal digits, are read as. -/
structure ReadsAs (text : Text) (ip : Ipv4) : Prop where
  str : forall address, Spells text address -> ip.str = canonical address
  value : 0 ≤ ip.value ∧ ip.value < 2 ^ 32
  numbers : Ipv4.ofValue (.list (ip.parts.map .number)) = .ok ip
  digits : forall digits : List Text, digits.map parseDigits = ip.parts.map (some ·.toNat) ->
    Ipv4.ofValue (.list (digits.map .digits)) = .ok ip

/-- Addresses are accepted and nothing else is. -/
structure ParsesExactly (text : Text) : Prop where
  accepts : (exists ip, Ipv4.ofValue (.text text) = .ok ip) <-> exists address, Spells text address
  reads : forall ip, Ipv4.ofValue (.text text) = .ok ip -> ReadsAs text ip

def NumberAgrees (text : Text) : Prop :=
  forall ip, Ipv4.ofValue (.text text) = .ok ip -> Ipv4.ofValue (.number ip.value) = .ok ip

variable {text : Text}

theorem exists_spells (hlength : (addressParts text).length = 4)
    (hoctets : forall part, part ∈ addressParts text -> isOctet part = true) :
    exists ip, Spells text ip := by
  unfold Spells
  generalize addressParts text = parts at hlength hoctets
  rcases length_eq_four.mp hlength with ⟨first, second, third, fourth, rfl⟩
  rcases isOctet_iff.mp (hoctets first (by simp)) with ⟨firstOctet, hfirst⟩
  rcases isOctet_iff.mp (hoctets second (by simp)) with ⟨secondOctet, hsecond⟩
  rcases isOctet_iff.mp (hoctets third (by simp)) with ⟨thirdOctet, hthird⟩
  rcases isOctet_iff.mp (hoctets fourth (by simp)) with ⟨fourthOctet, hfourth⟩
  refine ⟨⟨firstOctet, secondOctet, thirdOctet, fourthOctet⟩, ?_⟩
  simp only [map_cons, map_nil, hfirst, hsecond, hthird, hfourth]

theorem intOf_ok_iff {value : Int} :
    intOf text = .ok value <-> parseInt text = some value := by
  unfold intOf
  cases parseInt text with
  | none =>
    constructor
    · intro h
      cases h
    · intro h
      cases h
  | some found => rw [Except.ok.injEq, Option.some.injEq]

theorem updateRep_ok_iff {parts : List Int} :
    (exists ip, Ipv4.updateRep parts = .ok ip) <->
      forall value, value ∈ parts.tail -> 0 ≤ value := by
  unfold Ipv4.updateRep
  split
  · next hall =>
      exact ⟨fun _ value hvalue => of_decide_eq_true (all_eq_true.mp hall value hvalue),
        fun _ => ⟨_, rfl⟩⟩
  · next hsome =>
      constructor
      · rintro ⟨ip, h⟩
        cases h
      · intro h
        refine absurd (all_eq_true.mpr ?_) hsome
        exact fun value hvalue => decide_eq_true (h value hvalue)

theorem mapM_tail {α β ε : Type} {f : α -> Except ε β} {items : List α} {results : List β}
    (h : items.mapM f = .ok results) : items.tail.mapM f = .ok results.tail := by
  cases items with
  | nil =>
    cases h
    rfl
  | cons first rest =>
    rw [mapM_cons] at h
    rcases exists_of_bind h with ⟨value, _, hrest⟩
    rcases exists_of_bind hrest with ⟨values, hvalues, hresults⟩
    rw [tail_cons, hvalues, ← Except.ok.inj hresults]
    rfl

theorem ofText_ok_iff :
    (exists ip, Ipv4.ofText text = .ok ip) <->
      ((addressParts text).filter isOctet).length = 4 ∧
        (forall part, part ∈ addressParts text -> exists value, parseInt part = some value) ∧
          forall part, part ∈ (addressParts text).tail ->
            forall value, parseInt part = some value -> 0 ≤ value := by
  constructor
  · rintro ⟨ip, h⟩
    unfold Ipv4.ofText at h
    split at h
    · next hcount =>
        rcases exists_of_bind h with ⟨parts, hparts, hrep⟩
        refine ⟨hcount, ?_, ?_⟩
        · intro part hpart
          rcases (mapM_ok_mem hparts).left part hpart with ⟨value, _, hvalue⟩
          exact ⟨value, intOf_ok_iff.mp hvalue⟩
        · intro part hpart value hvalue
          rcases (mapM_ok_mem (mapM_tail hparts)).left part hpart with ⟨found, hfound, hok⟩
          rw [intOf_ok_iff.mp hok] at hvalue
          rw [← Option.some.inj hvalue]
          exact updateRep_ok_iff.mp ⟨ip, hrep⟩ found hfound
    · cases h
  · rintro ⟨hcount, hints, hbehind⟩
    have hparts : exists parts, (addressParts text).mapM intOf = .ok parts := by
      apply exists_mapM_ok
      intro part hpart
      rcases hints part hpart with ⟨value, hvalue⟩
      exact ⟨value, intOf_ok_iff.mpr hvalue⟩
    rcases hparts with ⟨parts, hparts⟩
    have hrep : exists ip, Ipv4.updateRep parts = .ok ip := by
      apply updateRep_ok_iff.mpr
      intro value hvalue
      rcases (mapM_ok_mem (mapM_tail hparts)).right value hvalue with ⟨part, hpart, hok⟩
      exact hbehind part hpart value (intOf_ok_iff.mp hok)
    rcases hrep with ⟨ip, hrep⟩
    refine ⟨ip, ?_⟩
    exact (if_pos hcount).trans (bind_eq_ok hparts hrep)

theorem accepted_iff :
    (exists ip, Ipv4.ofText text = .ok ip) <->
      (exists address, Spells text address) ∨ ExtraParts text := by
  constructor
  · intro h
    rcases ofText_ok_iff.mp h with ⟨hoctets, hints, hbehind⟩
    have hle := length_filter_le isOctet (addressParts text)
    rcases Nat.lt_or_eq_of_le hle with hmore | hsame
    · exact Or.inr ⟨hoctets, by omega, hints, hbehind⟩
    · left
      apply exists_spells (hsame.symm.trans hoctets)
      exact length_filter_eq_length_iff.mp hsame
  · rintro (⟨address, hspells⟩ | hextra)
    · exact ⟨_, ofText_spells hspells⟩
    · exact ofText_ok_iff.mpr ⟨hextra.octets, hextra.integers, hextra.behind⟩

theorem str_canonical (ip : Address) : (Ipv4.ofAddress ip).str = canonical ip := by
  show Ipv4.dotted (octets ip) = _
  simp only [Ipv4.dotted, octets, canonical, map_cons, map_nil,
    intercalate_cons_cons, intercalate_singleton, append_assoc,
    singleton_append]
  rfl

theorem ofList_numbers {values : List Int} (h : values ≠ []) :
    Ipv4.ofValue (.list (values.map .number)) = Ipv4.updateRep values := by
  have hmap : forall values : List Int,
      (values.map Entry.number).mapM Ipv4.numberOf = .ok values := by
    intro values
    induction values with
    | nil => rfl
    | cons first rest ih =>
      rw [map_cons, mapM_cons, ih]
      rfl
  cases values with
  | nil => exact absurd rfl h
  | cons first rest =>
    show ((first :: rest).map Entry.number).mapM Ipv4.numberOf >>= _ = _
    rw [hmap]
    rfl

theorem ofList_digits {digits : List Text} {values : List Int} (hne : digits ≠ [])
    (h : digits.mapM intOf = .ok values) :
    Ipv4.ofValue (.list (digits.map .digits)) = Ipv4.updateRep values := by
  have hmap : forall digits : List Text,
      (digits.map Entry.digits).mapM Ipv4.castInt = digits.mapM intOf := by
    intro digits
    induction digits with
    | nil => rfl
    | cons first rest ih =>
      rw [map_cons, mapM_cons, mapM_cons, ih]
      rfl
  cases digits with
  | nil => exact absurd rfl hne
  | cons first rest =>
    show ((first :: rest).map Entry.digits).mapM Ipv4.castInt >>= _ = _
    rw [hmap, h]
    rfl

theorem readsAs_ofAddress {ip : Address} (h : Spells text ip) :
    ReadsAs text (.ofAddress ip) := by
  constructor
  case str =>
    intro address haddress
    rw [h.unique haddress]
    exact str_canonical address
  case value =>
    have hless := ip.number_lt
    rw [value_ofAddress]
    omega
  case numbers => exact (ofList_numbers (cons_ne_nil _ _)).trans (updateRep_octets ip)
  case digits =>
    intro digits hdigits
    have hparse : digits.map parseDigits =
        [ip.first.toNat, ip.second.toNat, ip.third.toNat, ip.fourth.toNat].map some := hdigits
    have hne : digits ≠ [] := by
      intro hnil
      rw [hnil] at hparse
      cases hparse
    exact (ofList_digits hne (mapM_intOf _ hparse)).trans (updateRep_octets ip)

theorem ExtraParts.not_spells (h : ExtraParts text) (ip : Address) :
    ¬ Spells text ip := by
  intro hspells
  have hmore := h.more
  rw [hspells.length] at hmore
  exact absurd hmore (by decide)

theorem parsesExactly_of_not_extraParts (h : ¬ ExtraParts text) :
    ParsesExactly text := by
  have haccepted : (exists ip, Ipv4.ofText text = .ok ip) <->
      exists address, Spells text address := accepted_iff.trans (or_iff_left h)
  constructor
  case accepts => exact haccepted
  case reads =>
    intro ip hip
    rcases haccepted.mp ⟨ip, hip⟩ with ⟨address, hspells⟩
    rw [← Except.ok.inj ((ofText_spells hspells).symm.trans hip)]
    exact readsAs_ofAddress hspells

theorem not_parsesExactly (h : ExtraParts text) : ¬ ParsesExactly text := by
  intro hexact
  rcases hexact.accepts.mp (accepted_iff.mpr (Or.inr h)) with ⟨address, hspells⟩
  exact h.not_spells address hspells

theorem numberAgrees_iff (text : Text) :
    NumberAgrees text <-> ¬ exists ip, Ipv4.ofText text = .ok ip := by
  constructor
  · rintro hagrees ⟨ip, hip⟩
    cases hagrees ip hip
  · intro hrefused ip hip
    exact absurd ⟨ip, hip⟩ hrefused

theorem parsesExactly_iff (text : Text) :
    (ParsesExactly text <-> ¬ ExtraParts text) ∧
      (ParsesExactly text ∧ NumberAgrees text <->
        ¬ ExtraParts text ∧ ¬ exists address, Spells text address) := by
  have hexact : ParsesExactly text <-> ¬ ExtraParts text :=
    ⟨fun h hextra => not_parsesExactly hextra h, parsesExactly_of_not_extraParts⟩
  refine ⟨hexact, ?_⟩
  rw [hexact]
  apply and_congr_right
  intro hextra
  rw [numberAgrees_iff, accepted_iff, or_iff_left hextra]

/-- A fifth number is accepted, and the integer of an address is not. -/
theorem fiveParts_parsed :
    Ipv4.ofValue (.text "1.2.3.4.500".toList) = .ok ⟨[1, 2, 3, 4, 500]⟩ ∧
      ¬ ParsesExactly "1.2.3.4.500".toList ∧ ¬ NumberAgrees "1.2.3.4".toList := by
  have hparsed : Ipv4.ofText "1.2.3.4.500".toList = .ok ⟨[1, 2, 3, 4, 500]⟩ := rfl
  have hextra : ExtraParts "1.2.3.4.500".toList := by
    rcases ofText_ok_iff.mp ⟨_, hparsed⟩ with ⟨hoctets, hints, hbehind⟩
    exact ⟨hoctets, by decide, hints, hbehind⟩
  refine ⟨hparsed, not_parsesExactly hextra, ?_⟩
  rw [numberAgrees_iff]
  exact fun h => h ⟨⟨[1, 2, 3, 4]⟩, rfl⟩

end Icsw.Network
