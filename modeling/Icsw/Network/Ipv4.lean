import Icsw.Foundation.Address
import Icsw.Foundation.Decimal
import Mathlib.Data.Int.Bitwise

/-!
# IPv4 addresses

An address is a list of numbers that is read from a text with dots.  A text with more than four
numbers is accepted too, if four of them are octets, and operations write their result as a text
and read it again.
-/

namespace Icsw.Network

open Foundation List

@[ext]
structure Ipv4 where
  parts : List Int
deriving DecidableEq

/-- A part that is counted as one of the four numbers. -/
def isOctet (part : Text) : Bool :=
  match parseDigits part with
  | some value => decide (value ≤ 255)
  | none => false

def intOf (part : Text) : Except PyError Int :=
  match parseInt part with
  | some value => .ok value
  | none => .error .valueError

namespace Ipv4

/-- `_update_rep` reads the hexadecimal digits of the parts, with a sign at most in front. -/
def updateRep (parts : List Int) : Except PyError Ipv4 :=
  if parts.tail.all fun value => decide (0 ≤ value) then .ok ⟨parts⟩ else .error .valueError

/-- `ipv4(in_value)` of a text. -/
def ofText (inValue : Text) : Except PyError Ipv4 := do
  if ((splitAll '.' (strip inValue)).filter isOctet).length = 4 then
    let parts <- (splitAll '.' (strip inValue)).mapM intOf
    updateRep parts
  else
    .error .valueError

def dotted (parts : List Int) : Text := intercalate ['.'] (parts.map formatInt)

/-- `str(ip)` -/
def str (ip : Ipv4) : Text := dotted ip.parts

/-- The last four parts as one number. -/
def value (ip : Ipv4) : Int :=
  (ip.parts.reverse.take 4).foldr (fun part rest => part + 256 * rest) 0

def invert (ip : Ipv4) : Except PyError Ipv4 := ofText (dotted (ip.parts.map fun x => 255 - x))

variable (ip other : Ipv4)

def and : Except PyError Ipv4 :=
  ofText (dotted (zipWith Int.land ip.parts other.parts))

def or : Except PyError Ipv4 :=
  ofText (dotted (zipWith Int.lor ip.parts other.parts))

/-- The first of the first four parts that differ decides, else the outcome is `same`. -/
def compare (same : Bool) : Nat -> List Int -> List Int -> Bool
  | count + 1, part :: parts, other :: others =>
    if part > other then false
    else if part < other then true
    else compare same count parts others
  | _, _, _ => same

def lt : Bool := compare false 4 ip.parts other.parts

def le : Bool := compare true 4 ip.parts other.parts

def ge : Bool := compare true 4 other.parts ip.parts

def gt : Bool := compare false 4 other.parts ip.parts

def eq : Bool := decide (ip.parts = other.parts)

def hexWidth (part : Int) : Nat := max 2 (Nat.toDigits 16 part.natAbs).length

/-- `__int_rep`: the hexadecimal digits of all parts as one number. -/
def hash (ip : Ipv4) : Int :=
  (if ip.parts.headD 0 < 0 then -1 else 1) *
    ip.parts.foldl (fun rep part => rep * 16 ^ hexWidth part + part.natAbs) 0

def item (parts : List Int) (index : Nat) : Except PyError Int :=
  match parts[index]? with
  | some part => .ok part
  | none => .error .indexError

def carry (newVal ov : Int) : Int × Int :=
  if 255 < newVal then carry (newVal - 256) (ov + 1) else (newVal, ov)
termination_by newVal.toNat

/-- The sums of the parts before an index, with what the parts behind it have carried over. -/
def addParts (parts others : List Int) : Nat -> Int -> List Int -> Except PyError (Int × List Int)
  | 0, ov, newV => .ok (ov, newV)
  | index + 1, ov, newV => do
      let part <- item parts index
      let other <- item others index
      let sum := carry (part + other + ov) 0
      addParts parts others index sum.snd (sum.fst :: newV)

def add : Except PyError Ipv4 := do
  let sums <- addParts ip.parts other.parts 4 0 []
  if sums.fst ≠ 0 then .error .valueError else ofText (dotted sums.snd)

def maskBits (binMask bits : Int) : Int :=
  if binMask % 2 = 0 ∧ binMask ≠ 0 then maskBits (binMask / 2) (bits - 1) else bits
termination_by binMask.natAbs
decreasing_by omega

def netmaskBits (ip : Ipv4) : Int := if ip.value = 0 then 0 else maskBits ip.value 32

end Ipv4

inductive Entry where
  | number (value : Int)
  | digits (text : Text)

inductive InValue where
  | ip (other : Ipv4)
  | text (value : Text)
  | list (entries : List Entry)
  | tuple (entries : List Entry)
  | number (value : Int)
  | flag (value : Bool)

namespace Ipv4

/-- A text among integers cannot be written with hexadecimal digits. -/
def numberOf : Entry -> Except PyError Int
  | .number value => .ok value
  | .digits _ => .error .valueError

def castInt : Entry -> Except PyError Int
  | .number value => .ok value
  | .digits text => intOf text

def ofList : List Entry -> Except PyError Ipv4
  | [] => .error .indexError
  | .number first :: rest => do
      let parts <- (Entry.number first :: rest).mapM numberOf
      updateRep parts
  | .digits first :: rest => do
      let parts <- (Entry.digits first :: rest).mapM castInt
      updateRep parts

/-- `inv_parts` of an integer. -/
def invParts : Nat -> Int -> List Int
  | 0, _ => []
  | count + 1, inValue => Int.land inValue 255 :: invParts count (inValue >>> 8)

/-- `ipv4(in_value)`: an integer is cast to a list before it is looked at as an integer, so that
only the flags get there. -/
def ofValue : InValue -> Except PyError Ipv4
  | .ip other => ofText other.str
  | .text value => ofText value
  | .list entries => ofList entries
  | .tuple _ => .error .typeError
  | .number _ => .error .typeError
  | .flag value => updateRep (invParts 4 (if value then 1 else 0)).reverse

end Ipv4

def octets (ip : Address) : List Int :=
  [ip.first, ip.second, ip.third, ip.fourth].map fun octet => (octet.toNat : Int)

def Ipv4.ofAddress (ip : Address) : Ipv4 := ⟨octets ip⟩

theorem octets_injective {ip other : Address} (h : octets ip = octets other) : ip = other := by
  have hoctet : forall {octet other : BitVec 8}, (octet.toNat : Int) = other.toNat ->
      octet = other := fun h => BitVec.eq_of_toNat_eq (Int.ofNat.inj h)
  simp only [octets, map_cons, map_nil, cons.injEq] at h
  rcases h with ⟨hfirst, hsecond, hthird, hfourth, _⟩
  exact Address.ext (hoctet hfirst) (hoctet hsecond) (hoctet hthird) (hoctet hfourth)

def addressParts (text : Text) : List Text := splitAll '.' (strip text)

/-- Four decimal numbers with dots between them, and blanks around them at most. -/
def Spells (text : Text) (ip : Address) : Prop :=
  (addressParts text).map parseDigits =
    [some ip.first.toNat, some ip.second.toNat, some ip.third.toNat, some ip.fourth.toNat]

variable {text : Text} {c : Char}

theorem foldlM_none (hc : c ∈ text) (hdigit : digitValue c = none) (start : Nat) :
    text.foldlM (fun value c => (digitValue c).map fun digit => 10 * value + digit) start =
      none := by
  induction text generalizing start with
  | nil => cases hc
  | cons first rest ih =>
    rw [foldlM_cons]
    rcases mem_cons.mp hc with rfl | hrest
    · rw [hdigit]
      rfl
    · cases digitValue first with
      | none => rfl
      | some digit => exact ih hrest _

theorem parseDigits_eq_none (hc : c ∈ text)
    (hdigit : digitValue c = none) : parseDigits text = none := by
  rw [parseDigits, if_neg (ne_nil_of_mem hc)]
  exact foldlM_none hc hdigit 0

theorem digitValue_whitespace (h : isWhitespace c = true) : digitValue c = none := by
  have hcodes : forall code, code ∈ whitespaceCodes -> code ≠ 0x19DA ∧
      zeroCodes.find? (fun start => decide (start ≤ code ∧ code < start + 10)) = none := by decide
  have hcode := hcodes c.toNat (of_decide_eq_true h)
  rw [digitValue, if_neg hcode.left, hcode.right]
  rfl

theorem digitValue_of_parseDigits {value : Nat} (h : parseDigits text = some value)
    (hc : c ∈ text) : digitValue c ≠ none := by
  intro hnone
  rw [parseDigits_eq_none hc hnone] at h
  cases h

theorem parseInt_of_parseDigits {value : Nat} (h : parseDigits text = some value) :
    parseInt text = some (value : Int) := by
  have hdigit : forall {c : Char}, c ∈ text -> digitValue c ≠ none :=
    fun hc => digitValue_of_parseDigits h hc
  have hstrip : strip text = text := by
    apply strip_eq_self
    intro c hc
    apply eq_false_of_ne_true
    exact fun hspace => hdigit hc (digitValue_whitespace hspace)
  rw [parseInt, hstrip]
  split
  · exact absurd (by decide) (hdigit (c := '+') mem_cons_self)
  · exact absurd (by decide) (hdigit (c := '-') mem_cons_self)
  · rw [h]
    rfl

theorem intOf_of_parseDigits {value : Nat} (h : parseDigits text = some value) :
    intOf text = .ok (value : Int) := by
  unfold intOf
  rw [parseInt_of_parseDigits h]

theorem isOctet_iff {part : Text} :
    isOctet part = true <-> exists octet : BitVec 8, parseDigits part = some octet.toNat := by
  unfold isOctet
  constructor
  · intro h
    cases hdigits : parseDigits part with
    | none =>
      rw [hdigits] at h
      cases h
    | some value =>
      rw [hdigits] at h
      have hless : value < 2 ^ 8 := Nat.lt_succ_of_le (of_decide_eq_true h)
      exact ⟨BitVec.ofNatLT value hless, rfl⟩
  · rintro ⟨octet, hoctet⟩
    rw [hoctet]
    exact decide_eq_true (Nat.le_of_lt_succ octet.isLt)

theorem mapM_intOf {digits : List Text} (values : List Nat)
    (h : digits.map parseDigits = values.map some) :
    digits.mapM intOf = .ok (values.map fun value => (value : Int)) := by
  induction digits generalizing values with
  | nil =>
    rw [map_eq_nil_iff.mp h.symm]
    rfl
  | cons first rest ih =>
    cases values with
    | nil => cases h
    | cons value values =>
      rw [map_cons, map_cons, cons.injEq] at h
      rw [mapM_cons, intOf_of_parseDigits h.left, ih values h.right]
      rfl

theorem updateRep_octets (ip : Address) : Ipv4.updateRep (octets ip) = .ok (.ofAddress ip) := by
  have hnonneg : (octets ip).tail.all (fun value => decide (0 ≤ value)) = true := by
    apply all_eq_true.mpr
    intro value hvalue
    rcases mem_map.mp (mem_of_mem_tail hvalue) with ⟨octet, _, rfl⟩
    exact decide_eq_true (Int.natCast_nonneg _)
  exact if_pos hnonneg

variable {ip : Address}

theorem Spells.isOctet (h : Spells text ip) {part : Text}
    (hpart : part ∈ addressParts text) : isOctet part = true := by
  have hmem : parseDigits part ∈ (addressParts text).map parseDigits :=
    mem_map.mpr ⟨part, hpart, rfl⟩
  rw [h] at hmem
  apply isOctet_iff.mpr
  simp only [mem_cons, not_mem_nil, or_false] at hmem
  rcases hmem with hfirst | hsecond | hthird | hfourth
  · exact ⟨ip.first, hfirst⟩
  · exact ⟨ip.second, hsecond⟩
  · exact ⟨ip.third, hthird⟩
  · exact ⟨ip.fourth, hfourth⟩

theorem Spells.length (h : Spells text ip) : (addressParts text).length = 4 := by
  have := congrArg List.length h
  rwa [length_map] at this

theorem ofText_spells (h : Spells text ip) : Ipv4.ofText text = .ok (.ofAddress ip) := by
  have hall : (addressParts text).filter isOctet = addressParts text :=
    filter_eq_self.mpr fun part hpart => h.isOctet hpart
  have hcount : ((splitAll '.' (strip text)).filter isOctet).length = 4 :=
    (congrArg List.length hall).trans h.length
  have hparts : (splitAll '.' (strip text)).mapM intOf = .ok (octets ip) :=
    mapM_intOf [ip.first.toNat, ip.second.toNat, ip.third.toNat, ip.fourth.toNat] h
  rw [Ipv4.ofText, if_pos hcount, hparts]
  exact updateRep_octets ip

theorem Spells.unique {ip other : Address} (h : Spells text ip)
    (hother : Spells text other) : ip = other := by
  have hread := (ofText_spells h).symm.trans (ofText_spells hother)
  exact octets_injective (congrArg Ipv4.parts (Except.ok.inj hread))

structure OctetText (text : Text) (octet : BitVec 8) : Prop where
  digits : forall c, c ∈ text -> 48 ≤ c.toNat ∧ c.toNat ≤ 57
  value : parseDigits text = some octet.toNat

/-- Four octets with dots between them, with leading zeros or without. -/
def QuadText (text : Text) (ip : Address) : Prop :=
  exists first second third fourth,
    text = first ++ '.' :: (second ++ '.' :: (third ++ '.' :: fourth)) ∧
      OctetText first ip.first ∧ OctetText second ip.second ∧ OctetText third ip.third ∧
        OctetText fourth ip.fourth

theorem OctetText.no_dot {octet : BitVec 8} (h : OctetText text octet) :
    '.' ∉ text := fun hmem => absurd (h.digits '.' hmem).left (by decide)

theorem strip_quad (h : QuadText text ip) : strip text = text := by
  have hcode : forall c, c ∈ text -> 46 ≤ c.toNat ∧ c.toNat ≤ 57 := by
    have hdot : 46 ≤ '.'.toNat ∧ '.'.toNat ≤ 57 := by decide
    have hdigit : forall {part : Text} {octet : BitVec 8}, OctetText part octet ->
        forall c, c ∈ part -> 46 ≤ c.toNat ∧ c.toNat ≤ 57 := fun hpart c hc =>
      ⟨le_trans (by decide) (hpart.digits c hc).left, (hpart.digits c hc).right⟩
    rcases h with ⟨first, second, third, fourth, rfl, hfirst, hsecond, hthird, hfourth⟩
    intro c hc
    rcases mem_append.mp hc with hin | hc
    · exact hdigit hfirst c hin
    rcases mem_cons.mp hc with rfl | hc
    · exact hdot
    rcases mem_append.mp hc with hin | hc
    · exact hdigit hsecond c hin
    rcases mem_cons.mp hc with rfl | hc
    · exact hdot
    rcases mem_append.mp hc with hin | hc
    · exact hdigit hthird c hin
    rcases mem_cons.mp hc with rfl | hin
    · exact hdot
    · exact hdigit hfourth c hin
  apply strip_eq_self
  intro c hc
  exact isWhitespace_eq_false (lt_of_lt_of_le (by decide) (hcode c hc).left)
    (lt_of_le_of_lt (hcode c hc).right (by decide))

theorem QuadText.spells (h : QuadText text ip) : Spells text ip := by
  have hstrip := strip_quad h
  rcases h with ⟨first, second, third, fourth, rfl, hfirst, hsecond, hthird, hfourth⟩
  unfold Spells addressParts
  rw [hstrip, splitAll_cons hfirst.no_dot, splitAll_cons hsecond.no_dot, splitAll_cons hthird.no_dot,
    splitAll_of_not_mem hfourth.no_dot, map_cons, map_cons, map_cons, map_cons,
    hfirst.value, hsecond.value, hthird.value, hfourth.value]
  rfl

theorem ofText_quad (h : QuadText text ip) :
    Ipv4.ofText text = .ok (Ipv4.ofAddress ip) := ofText_spells h.spells

theorem quadText_dotted (ip : Address) : QuadText (Ipv4.dotted (octets ip)) ip := by
  have hoctet : forall octet : BitVec 8, OctetText (formatInt octet.toNat) octet := by
    intro octet
    exact ⟨fun c hc => isDigit_toDigits hc, parseDigits_toDigits octet.toNat⟩
  refine ⟨_, _, _, _, ?_, hoctet _, hoctet _, hoctet _, hoctet _⟩
  simp only [Ipv4.dotted, octets, map_cons, map_nil, intercalate_cons_cons,
    intercalate_singleton, append_assoc, singleton_append]

theorem ofText_dotted (ip : Address) :
    Ipv4.ofText (Ipv4.dotted (octets ip)) = .ok (Ipv4.ofAddress ip) :=
  ofText_quad (quadText_dotted ip)

theorem str_ofAddress (ip : Address) : QuadText (Ipv4.ofAddress ip).str ip := quadText_dotted ip

theorem invert_ofAddress (ip : Address) :
    (Ipv4.ofAddress ip).invert = .ok (Ipv4.ofAddress ip.not) := by
  have hparts : (octets ip).map (fun x => 255 - x) = octets ip.not := by
    have hoctet : forall octet : BitVec 8, 255 - (octet.toNat : Int) = ((~~~octet).toNat : Int) := by
      intro octet
      have := octet.isLt
      rw [BitVec.toNat_not]
      omega
    simp only [octets, Address.not, map_cons, map_nil, hoctet]
  show Ipv4.ofText (Ipv4.dotted ((octets ip).map fun x => 255 - x)) = _
  rw [hparts, ofText_dotted]

theorem and_ofAddress (ip other : Address) :
    (Ipv4.ofAddress ip).and (Ipv4.ofAddress other) = .ok (Ipv4.ofAddress (ip.both other)) := by
  have hparts : zipWith Int.land (octets ip) (octets other) = octets (ip.both other) := by
    simp only [octets, Address.both, map_cons, map_nil, zipWith_cons_cons,
      zipWith_nil_left, BitVec.toNat_and]
    rfl
  show Ipv4.ofText (Ipv4.dotted (zipWith Int.land (octets ip) (octets other))) = _
  rw [hparts, ofText_dotted]

theorem or_ofAddress (ip other : Address) :
    (Ipv4.ofAddress ip).or (Ipv4.ofAddress other) = .ok (Ipv4.ofAddress (ip.either other)) := by
  have hparts : zipWith Int.lor (octets ip) (octets other) = octets (ip.either other) := by
    simp only [octets, Address.either, map_cons, map_nil, zipWith_cons_cons,
      zipWith_nil_left, BitVec.toNat_or]
    rfl
  show Ipv4.ofText (Ipv4.dotted (zipWith Int.lor (octets ip) (octets other))) = _
  rw [hparts, ofText_dotted]

theorem value_ofAddress (ip : Address) : (Ipv4.ofAddress ip).value = ip.number := by
  show (ip.fourth.toNat : Int) + 256 * (ip.third.toNat + 256 * (ip.second.toNat +
    256 * (ip.first.toNat + 256 * 0))) = _
  unfold Address.number
  omega

def outcome (same : Bool) (number other : Nat) : Bool :=
  decide (number < other) || (same && decide (number = other))

variable {number other : Nat}

theorem outcome_less {same : Bool} (h : number < other) :
    outcome same number other = true := by
  rw [outcome, decide_eq_true h, Bool.true_or]

theorem outcome_more {same : Bool} (h : other < number) :
    outcome same number other = false := by
  rw [outcome, decide_eq_false (Nat.not_lt_of_lt h), decide_eq_false (Nat.ne_of_gt h),
    Bool.and_false, Bool.or_false]

theorem outcome_same {same : Bool} (h : number = other) :
    outcome same number other = same := by
  rw [outcome, decide_eq_false (Nat.not_lt_of_le (Nat.le_of_eq h.symm)), decide_eq_true h,
    Bool.and_true, Bool.false_or]

theorem compare_ofAddress (same : Bool) (ip other : Address) :
    Ipv4.compare same 4 (octets ip) (octets other) = outcome same ip.number other.number := by
  have hbounds : forall ip : Address, ip.second.toNat < 256 ∧ ip.third.toNat < 256 ∧
      ip.fourth.toNat < 256 := fun ip => ⟨ip.second.isLt, ip.third.isLt, ip.fourth.isLt⟩
  have hip := hbounds ip
  have hother := hbounds other
  simp only [octets, map_cons, map_nil, Ipv4.compare]
  unfold Address.number
  -- each octet that differs decides the order of the numbers
  split_ifs
  · exact (outcome_more (by omega)).symm
  · exact (outcome_less (by omega)).symm
  · exact (outcome_more (by omega)).symm
  · exact (outcome_less (by omega)).symm
  · exact (outcome_more (by omega)).symm
  · exact (outcome_less (by omega)).symm
  · exact (outcome_more (by omega)).symm
  · exact (outcome_less (by omega)).symm
  · exact (outcome_same (by omega)).symm

theorem lt_ofAddress (ip other : Address) :
    (Ipv4.ofAddress ip).lt (Ipv4.ofAddress other) = true <-> ip.number < other.number := by
  have hcompare := compare_ofAddress false ip other
  rw [outcome, Bool.false_and, Bool.or_false] at hcompare
  show Ipv4.compare false 4 (octets ip) (octets other) = true <-> _
  rw [hcompare, decide_eq_true_iff]

theorem le_ofAddress (ip other : Address) :
    (Ipv4.ofAddress ip).le (Ipv4.ofAddress other) = true <-> ip.number ≤ other.number := by
  have hcompare := compare_ofAddress true ip other
  rw [outcome, Bool.true_and] at hcompare
  show Ipv4.compare true 4 (octets ip) (octets other) = true <-> _
  rw [hcompare, Bool.or_eq_true, decide_eq_true_iff, decide_eq_true_iff]
  exact le_iff_lt_or_eq.symm

theorem ge_ofAddress (ip other : Address) :
    (Ipv4.ofAddress ip).ge (Ipv4.ofAddress other) = true <-> other.number ≤ ip.number :=
  le_ofAddress other ip

theorem mem_strip (hc : c ∈ text) (hspace : isWhitespace c = false) :
    c ∈ strip text := by
  have hdrop : forall part : Text, c ∈ part -> c ∈ part.dropWhile isWhitespace := by
    intro part hpart
    rw [← takeWhile_append_dropWhile (p := isWhitespace) (l := part)] at hpart
    rcases mem_append.mp hpart with htake | hdrop
    · rw [mem_takeWhile_imp htake] at hspace
      cases hspace
    · exact hdrop
  exact mem_reverse.mpr (hdrop _ (mem_reverse.mpr (hdrop _ hc)))

theorem exists_part (sep : Char) (hc : c ∈ text) (hsep : c ≠ sep) :
    exists part, part ∈ splitAll sep text ∧ c ∈ part := by
  induction hlength : text.length using Nat.strongRecOn generalizing text with
  | ind bound ih =>
    rcases breakOn_char sep text with ⟨_, hmem⟩ | ⟨first, rest, _, hmem, htext⟩
    · rw [splitAll_of_not_mem hmem]
      exact ⟨text, mem_singleton.mpr rfl, hc⟩
    · rw [htext] at hc ⊢
      rw [splitAll_cons hmem]
      rcases mem_append.mp hc with hfirst | hrest
      · exact ⟨first, mem_cons_self, hfirst⟩
      · rcases mem_cons.mp hrest with hsame | hin
        · exact absurd hsame hsep
        · have hless : rest.length < bound := by
            rw [← hlength, htext, length_append, length_cons]
            omega
          rcases ih rest.length hless hin rfl with ⟨part, hpart, hcin⟩
          exact ⟨part, mem_cons_of_mem _ hpart, hcin⟩

theorem parseInt_colon (h : ':' ∈ text) : parseInt text = none := by
  have hdigit : digitValue ':' = none := by decide
  have hin : ':' ∈ strip text := mem_strip h (by decide)
  have hrest : forall {sign : Char} {digits : Text}, strip text = sign :: digits -> ':' ≠ sign ->
      ':' ∈ digits := by
    intro sign digits hstrip hsign
    rw [hstrip] at hin
    exact (mem_cons.mp hin).resolve_left hsign
  rw [parseInt]
  split
  · next hstrip => rw [parseDigits_eq_none (hrest hstrip (by decide)) hdigit]; rfl
  · next hstrip => rw [parseDigits_eq_none (hrest hstrip (by decide)) hdigit]; rfl
  · rw [parseDigits_eq_none hin hdigit]
    rfl

theorem ofText_colon (h : ':' ∈ text) : exists raised, Ipv4.ofText text = .error raised := by
  rcases exists_part '.' (mem_strip h (by decide)) (by decide) with ⟨part, hpart, hcolon⟩
  have hint : intOf part = .error .valueError := by
    unfold intOf
    rw [parseInt_colon hcolon]
  rcases mapM_ne_ok hpart hint with ⟨raised, hraised⟩
  rw [Ipv4.ofText]
  split
  · refine ⟨raised, ?_⟩
    rw [hraised]
    rfl
  · exact ⟨.valueError, rfl⟩

end Icsw.Network
