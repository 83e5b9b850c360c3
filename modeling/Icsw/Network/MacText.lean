import Icsw.Network.DeviceType

/-!
# MAC addresses

A well-formed address is pairs of hexadecimal digits with a colon or a hyphen between them.  It is
accepted for a type exactly as it is, or as the address of zeros, when its pairs are as many as the
bytes of the type.
-/

namespace Icsw.Network

open Foundation List

def hexDigits : Text := "0123456789abcdefABCDEF".toList

/-- Pairs of digits with separators between them. -/
inductive MacSpelled : Nat -> Text -> Prop where
  | last {high low : Char} (hhigh : high ∈ hexDigits) (hlow : low ∈ hexDigits) :
      MacSpelled 1 [high, low]
  | more {bytes : Nat} {high low sep : Char} {rest : Text} (hhigh : high ∈ hexDigits)
      (hlow : low ∈ hexDigits) (hsep : sep = ':' ∨ sep = '-') (hrest : MacSpelled bytes rest) :
      MacSpelled (bytes + 1) (high :: low :: sep :: rest)

theorem hexDigit_separator {c : Char} (h : c ∈ hexDigits) : c ≠ ':' ∧ c ≠ '-' :=
  (by decide : forall c, c ∈ hexDigits -> c ≠ ':' ∧ c ≠ '-') c h

theorem hexDigit_lower {c : Char} (h : c ∈ hexDigits) :
    isHex c.toLower = true ∧ c.toLower ∈ hexDigits :=
  (by decide : forall c, c ∈ hexDigits -> isHex c.toLower = true ∧ c.toLower ∈ hexDigits) c h

theorem colons_digit {c : Char} (h : c ∈ hexDigits) : (if c = '-' then ':' else c) = c :=
  if_neg (hexDigit_separator h).right

theorem lowerColons_pair {high low : Char} (hhigh : high ∈ hexDigits) (hlow : low ∈ hexDigits)
    (rest : Text) :
    lowerColons (high :: low :: rest) = high.toLower :: low.toLower :: lowerColons rest := by
  unfold lowerColons colons
  rw [map_cons, map_cons, map_cons, map_cons, colons_digit hhigh,
    colons_digit hlow]

theorem lowerColons_separator {sep : Char} (h : sep = ':' ∨ sep = '-') (rest : Text) :
    lowerColons (sep :: rest) = ':' :: lowerColons rest := by
  rcases h with rfl | rfl
  · rfl
  · rfl

theorem pairRest_digits {high low : Char} (hhigh : high ∈ hexDigits) (hlow : low ∈ hexDigits)
    (rest : Text) : pairRest (high.toLower :: low.toLower :: rest) = some rest :=
  if_pos ⟨(hexDigit_lower hhigh).left, (hexDigit_lower hlow).left⟩

namespace MacSpelled

variable {bytes : Nat} {text : Text}

section

variable (h : MacSpelled bytes text)
include h

theorem bytes_pos : 0 < bytes := by
  cases h with
  | last _ _ => exact Nat.one_pos
  | more _ _ _ _ => exact Nat.succ_pos _

theorem ne_nil : text ≠ [] := by
  cases h with
  | last _ _ => exact cons_ne_nil _ _
  | more _ _ _ _ => exact cons_ne_nil _ _

theorem count_colons : (colons text).count ':' + 1 = bytes := by
  have hpair : forall {high low : Char} {rest : Text}, high ∈ hexDigits -> low ∈ hexDigits ->
      (colons (high :: low :: rest)).count ':' = (colons rest).count ':' := by
    intro high low rest hhigh hlow
    unfold colons
    rw [map_cons, map_cons, colons_digit hhigh, colons_digit hlow,
      count_cons_of_ne (hexDigit_separator hhigh).left,
      count_cons_of_ne (hexDigit_separator hlow).left]
  induction h with
  | last hhigh hlow =>
    rw [hpair hhigh hlow]
    rfl
  | @more bytes high low sep rest hhigh hlow hsep hrest ih =>
    have hcolon : colons (sep :: rest) = ':' :: colons rest := by
      rcases hsep with rfl | rfl
      · rfl
      · rfl
    rw [hpair hhigh hlow, hcolon, count_cons_self, ih]

theorem macBytesOf_eq : macBytesOf text = bytes := by
  unfold macBytesOf
  rw [if_pos h.ne_nil, h.count_colons]

theorem pairsRest_eq : pairsRest bytes (lowerColons text) = some [] := by
  induction h with
  | last hhigh hlow =>
    rw [lowerColons_pair hhigh hlow]
    exact pairRest_digits hhigh hlow _
  | @more bytes high low sep rest hhigh hlow hsep hrest ih =>
    rcases Nat.exists_eq_add_of_lt hrest.bytes_pos with ⟨more, hmore⟩
    rw [Nat.zero_add] at hmore
    subst hmore
    rw [lowerColons_pair hhigh hlow, lowerColons_separator hsep]
    unfold pairsRest
    rw [pairRest_digits hhigh hlow]
    exact ih

theorem macReMatch_eq : macReMatch bytes (lowerColons text) = true :=
  decide_eq_true (Or.inl h.pairsRest_eq)

theorem mem_lowerColons {c : Char} (hc : c ∈ lowerColons text) :
    c ∈ hexDigits ∨ c = ':' := by
  induction h with
  | last hhigh hlow =>
    rw [lowerColons_pair hhigh hlow] at hc
    rcases mem_cons.mp hc with rfl | hc
    · exact Or.inl (hexDigit_lower hhigh).right
    rcases mem_cons.mp hc with rfl | hc
    · exact Or.inl (hexDigit_lower hlow).right
    · cases hc
  | more hhigh hlow hsep _ ih =>
    rw [lowerColons_pair hhigh hlow, lowerColons_separator hsep] at hc
    rcases mem_cons.mp hc with rfl | hc
    · exact Or.inl (hexDigit_lower hhigh).right
    rcases mem_cons.mp hc with rfl | hc
    · exact Or.inl (hexDigit_lower hlow).right
    rcases mem_cons.mp hc with rfl | hc
    · exact Or.inr rfl
    · exact ih hc

theorem exists_digit :
    exists c, c ∈ (lowerColons text).filter fun c => c != ':' := by
  have hfirst : forall {high low : Char} {rest : Text}, high ∈ hexDigits -> low ∈ hexDigits ->
      high.toLower ∈ (lowerColons (high :: low :: rest)).filter fun c => c != ':' := by
    intro high low rest hhigh hlow
    have hlower := (hexDigit_lower hhigh).right
    rw [lowerColons_pair hhigh hlow]
    refine mem_filter.mpr ⟨mem_cons_self, ?_⟩
    rw [bne_iff_ne]
    exact (hexDigit_separator hlower).left
  cases h with
  | last hhigh hlow => exact ⟨_, hfirst hhigh hlow⟩
  | more hhigh hlow _ _ => exact ⟨_, hfirst hhigh hlow⟩

end

end MacSpelled

theorem foldlM_isSome {α β : Type} {step : β -> α -> Option β} {items : List α}
    (h : forall held item, item ∈ items -> (step held item).isSome = true) (start : β) :
    (items.foldlM step start).isSome = true := by
  induction items generalizing start with
  | nil => rfl
  | cons first rest ih =>
    rcases Option.isSome_iff_exists.mp (h start first mem_cons_self) with ⟨next, hnext⟩
    rw [foldlM_cons, hnext]
    exact ih (fun held item hitem => h held item (mem_cons_of_mem first hitem)) next

theorem intBase16_isSome {text : Text} (hne : text ≠ [])
    (h : forall c, c ∈ text -> c ∈ hexDigits) : (intBase16 text).isSome = true := by
  have hfacts : forall c, c ∈ hexDigits -> isWhitespace c = false ∧ c ≠ '-' ∧ c ≠ '+' ∧
      c ≠ 'x' ∧ c ≠ 'X' ∧ (Regex.hexValue c).isSome = true := by decide
  have hstrip : strip text = text := strip_eq_self fun c hc => (hfacts c (h c hc)).left
  have hsign : ¬ (text.head? = some '-' ∨ text.head? = some '+') := by
    rintro (hhead | hhead)
    · exact (hfacts '-' (h '-' (mem_of_mem_head? hhead))).right.left rfl
    · exact (hfacts '+' (h '+' (mem_of_mem_head? hhead))).right.right.left rfl
  have hbase : ¬ (text.take 2 = ['0', 'x'] ∨ text.take 2 = ['0', 'X']) := by
    have hmem : forall c, c ∈ text.take 2 -> c ∈ hexDigits := fun c hc => h c (mem_of_mem_take hc)
    rintro (htake | htake)
    · exact (hfacts 'x' (hmem 'x' (by rw [htake]; decide))).right.right.right.left rfl
    · exact (hfacts 'X' (hmem 'X' (by rw [htake]; decide))).right.right.right.right.left rfl
  unfold intBase16
  dsimp only
  rw [hstrip, if_neg hsign, if_neg hbase, if_neg hne, Option.isSome_map]
  apply foldlM_isSome
  intro held c hc
  rw [Option.isSome_map]
  rcases Option.isSome_iff_exists.mp (hfacts c (h c hc)).right.right.right.right.right with
    ⟨value, hvalue⟩
  rw [hvalue]
  rfl

theorem strip_ne_nil {text : Text} {c : Char} (hc : c ∈ text) (hplain : isWhitespace c = false) :
    strip text ≠ [] := by
  intro hnil
  unfold strip at hnil
  rw [reverse_eq_nil_iff, dropWhile_eq_nil_iff] at hnil
  have hdrop : text.dropWhile isWhitespace ≠ [] := fun heq => by
    rw [dropWhile_eq_nil_iff] at heq
    rw [heq c hc] at hplain
    cases hplain
  have hhead := head_dropWhile_not isWhitespace hdrop
  rw [hnil _ (mem_reverse.mpr (head_mem hdrop))] at hhead
  cases hhead

theorem macReMatch_dummyMac : macReMatch 6 (dummyMac 6) = true := by decide

theorem fillMac_spelled {text : Text} (h : MacSpelled 6 text) (before : Text) :
    exists filled, fillMac 6 before (lowerColons text) = .ok filled ∧
      macReMatch 6 filled = true := by
  rcases h.exists_digit with ⟨digit, hdigit⟩
  rcases mem_filter.mp hdigit with ⟨hmem, hcolon⟩
  have hhex : digit ∈ hexDigits := by
    rcases h.mem_lowerColons hmem with hhex | heq
    · exact hhex
    · rw [heq] at hcolon
      cases hcolon
  have hplain : isWhitespace digit = false :=
    (by decide : forall c, c ∈ hexDigits -> isWhitespace c = false) digit hhex
  have hdigits : forall c, c ∈ (lowerColons text).filter (fun c => c != ':') -> c ∈ hexDigits := by
    intro c hc
    rcases mem_filter.mp hc with ⟨hin, hne⟩
    rcases h.mem_lowerColons hin with hhex | heq
    · exact hhex
    · rw [heq] at hne
      cases hne
  rcases Option.isSome_iff_exists.mp
    (intBase16_isSome (ne_nil_of_mem hdigit) hdigits) with ⟨value, hvalue⟩
  unfold fillMac
  rw [if_neg (strip_ne_nil hmem hplain), hvalue]
  by_cases hzero : value = 0
  · exact ⟨dummyMac 6, by rw [hzero]; rfl, macReMatch_dummyMac⟩
  · refine ⟨lowerColons text, ?_, h.macReMatch_eq⟩
    show Except.ok (if value = 0 then dummyMac 6 else lowerColons text) = _
    rw [if_neg hzero]

theorem toLower_blank {c : Char} (h : isWhitespace c = true) : c.toLower = c := by
  unfold Char.toLower
  apply dif_neg
  rintro ⟨hlow, hhigh⟩
  have hlow' : 65 ≤ c.toNat := UInt32.le_iff_toNat_le.mp hlow
  have hhigh' : c.toNat ≤ 90 := UInt32.le_iff_toNat_le.mp hhigh
  rw [isWhitespace_eq_false (by omega) (by omega)] at h
  cases h

theorem lowerColons_blank {text : Text} (h : strip text = []) : strip (lowerColons text) = [] := by
  have hblank : forall c, c ∈ text -> isWhitespace c = true := fun c hc => by
    cases hspace : isWhitespace c with
    | true => rfl
    | false => exact absurd h (strip_ne_nil hc hspace)
  have hsame : lowerColons text = text := by
    unfold lowerColons colons
    rw [map_map]
    refine (map_congr_left fun c hc => ?_).trans (map_id text)
    have hhyphen : c ≠ '-' := fun heq => absurd (heq ▸ hblank c hc) (by decide)
    show (if c = '-' then ':' else c).toLower = c
    rw [if_neg hhyphen, toLower_blank (hblank c hc)]
  rw [hsame]
  exact h

theorem fillMac_fits {text : Text} (h : strip text = [] ∨ MacSpelled 6 text) (before : Text) :
    exists filled, fillMac 6 before (lowerColons text) = .ok filled ∧
      macReMatch 6 filled = true := by
  rcases h with hblank | hspelled
  · refine ⟨dummyMac 6, ?_, macReMatch_dummyMac⟩
    unfold fillMac
    exact if_pos (lowerColons_blank hblank)
  · exact fillMac_spelled hspelled before

theorem checkMacs_ok {macaddr fakeMacaddr : Text} (hmac : MacSpelled 6 macaddr)
    (hfake : strip fakeMacaddr = [] ∨ MacSpelled 6 fakeMacaddr) :
    exists macs, checkMacs 6 (lowerColons macaddr) (lowerColons fakeMacaddr) = .ok macs := by
  rcases fillMac_spelled hmac "MACaddress '".toList with ⟨mac, hfilled, hfits⟩
  rcases fillMac_fits hfake "fake MACaddress '".toList with ⟨fake, hfilled', hfits'⟩
  refine ⟨(mac, fake), ?_⟩
  unfold checkMacs
  rw [hfilled, hfilled']
  show (if macReMatch 6 mac = false then _ else _) = _
  rw [if_neg (by rw [hfits]; decide), if_neg (by rw [hfits']; decide)]
  rfl

end Icsw.Network
