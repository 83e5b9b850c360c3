import Icsw.Foundation.Python
import Mathlib.Data.List.TakeWhile

/-!
# Patterns and regular expressions

A pattern that is a row of runs of characters is matched by trying the lengths of each run in turn,
and what each run takes is a group.  Regular expressions in general are read as the interpreted
language reads them.  What begins with an opening parenthesis and a question mark, and references
to groups by number, are left to a parameter.
-/

namespace Icsw.Foundation

open List

/-- A run of characters of one kind, as long or as short as possible. -/
structure Part where
  accepts : Char -> Bool
  least : Nat
  most : Option Nat
  greedy : Bool

namespace Part

def longest (part : Part) (text : Text) : Nat :=
  let run := (text.takeWhile part.accepts).length
  (part.most.map (min run)).getD run

def lengths (part : Part) (text : Text) : List Nat :=
  let possible := (range (part.longest text + 1)).filter fun length => part.least ≤ length
  if part.greedy = true then possible.reverse else possible

/-- One given character. -/
def one (c : Char) : Part := ⟨fun other => other == c, 1, some 1, true⟩

/-- `*` -/
def star (accepts : Char -> Bool) : Part := ⟨accepts, 0, none, true⟩

/-- `+` -/
def plus (accepts : Char -> Bool) : Part := ⟨accepts, 1, none, true⟩

/-- `+?` -/
def plusLazy (accepts : Char -> Bool) : Part := ⟨accepts, 1, none, false⟩

def Takes (part : Part) (group : Text) : Prop :=
  part.least ≤ group.length ∧ forall c, c ∈ group -> part.accepts c = true

end Part

/-- The groups of the first match of `^..$`, a newline at the end left out. -/
def capture : List Part -> Text -> Option (List Text)
  | [], text => if text = [] ∨ text = ['\n'] then some [] else none
  | part :: rest, text =>
    (part.lengths text).findSome? fun length =>
      (capture rest (text.drop length)).map fun groups => text.take length :: groups

structure Place where
  before : Text
  after : Text
deriving DecidableEq

inductive Regex where
  | empty
  | one (accepts : Char -> Bool)
  | start
  | stop
  | endOfText
  /-- A place with a word on one side only, or any other place. -/
  | boundary (isBoundary : Bool)
  | seq (first second : Regex)
  | either (first second : Regex)
  | repeated (least : Nat) (most : Option Nat) (body : Regex)
  | group (body : Regex)

namespace Regex

def isDigit (c : Char) : Bool := decide ('0' ≤ c) && decide (c ≤ '9')

def isSpace (c : Char) : Bool := [' ', '\t', '\n', '\r', '\x0b', '\x0c'].contains c

def isWord (c : Char) : Bool :=
  isDigit c || c == '_' || (decide ('a' ≤ c) && decide (c ≤ 'z')) ||
    (decide ('A' ≤ c) && decide (c ≤ 'Z'))

/-- The places after a number of rounds. -/
def exactly (step : Place -> List Place) : Nat -> Place -> List Place
  | 0, place => [place]
  | rounds + 1, place => (step place).flatMap (exactly step rounds)

/-- The places after at most a number of rounds that each go on in the text. -/
def atMost (step : Place -> List Place) : Nat -> Place -> List Place
  | 0, place => [place]
  | rounds + 1, place =>
    place :: ((step place).filter fun next => next.after.length < place.after.length).flatMap
      (atMost step rounds)

def ends : Regex -> Place -> List Place
  | .empty, place => [place]
  | .one accepts, place =>
    match place.after with
    | [] => []
    | c :: rest => if accepts c = true then [⟨c :: place.before, rest⟩] else []
  | .start, place => if place.before = [] then [place] else []
  | .stop, place => if place.after = [] ∨ place.after = ['\n'] then [place] else []
  | .endOfText, place => if place.after = [] then [place] else []
  | .boundary isBoundary, place =>
    if ((place.before.head?.any isWord) != (place.after.head?.any isWord)) = isBoundary then [place]
    else []
  | .seq first second, place => (first.ends place).flatMap second.ends
  | .either first second, place => first.ends place ++ second.ends place
  | .repeated least most body, place =>
    (exactly body.ends least place).flatMap fun between =>
      atMost body.ends ((most.map (· - least)).getD between.after.length) between
  | .group body, place => body.ends place

/-- `re.match` -/
def matchesStart (regex : Regex) (text : Text) : Bool :=
  decide (regex.ends ⟨[], text⟩ ≠ [])

variable {place last : Place}

theorem mem_ends_seq {first second : Regex} : last ∈ (Regex.seq first second).ends place <->
      exists between, between ∈ first.ends place ∧ last ∈ second.ends between :=
  mem_flatMap

variable {accepts : Char -> Bool} {c : Char}

theorem mem_ends_one (before rest : Text) (h : accepts c = true) :
    (⟨c :: before, rest⟩ : Place) ∈ (Regex.one accepts).ends ⟨before, c :: rest⟩ := by
  show _ ∈ if accepts c = true then [_] else []
  rw [if_pos h]
  exact mem_singleton_self _

/-- One or more characters. -/
def plus (accepts : Char -> Bool) : Regex := .repeated 1 none (.one accepts)

theorem ends_plus (before rest : Text) (h : accepts c = true) :
    (plus accepts).ends ⟨before, c :: rest⟩ =
      atMost (Regex.one accepts).ends rest.length ⟨c :: before, rest⟩ := by
  have hone : (Regex.one accepts).ends ⟨before, c :: rest⟩ = [⟨c :: before, rest⟩] := if_pos h
  show ((Regex.one accepts).ends _ |>.flatMap (exactly _ 0)).flatMap _ = _
  rw [hone]
  simp only [flatMap_cons, flatMap_nil, append_nil, exactly]
  rfl

theorem mem_atMost (step : Place -> List Place) (rounds : Nat) (place : Place) :
    place ∈ atMost step rounds place := by
  cases rounds with
  | zero => exact mem_singleton_self _
  | succ rounds => exact mem_cons_self

theorem mem_ends_plus (before rest : Text) (h : accepts c = true) :
    (⟨c :: before, rest⟩ : Place) ∈ (plus accepts).ends ⟨before, c :: rest⟩ := by
  rw [ends_plus before rest h]
  exact mem_atMost _ _ _

theorem mem_ends_plus_cons {c d : Char} {before rest : Text} {last : Place}
    (hc : accepts c = true) (hd : accepts d = true)
    (h : last ∈ (plus accepts).ends ⟨c :: before, d :: rest⟩) :
    last ∈ (plus accepts).ends ⟨before, c :: d :: rest⟩ := by
  rw [ends_plus _ _ hd] at h
  rw [ends_plus _ _ hc]
  apply mem_cons_of_mem
  rw [mem_flatMap]
  refine ⟨⟨d :: c :: before, rest⟩, mem_filter.mpr ⟨mem_ends_one _ _ hd, ?_⟩, h⟩
  exact decide_eq_true (Nat.lt_succ_self rest.length)

theorem mem_ends_plus_run {run : Text} (hne : run ≠ [])
    (hrun : forall c, c ∈ run -> accepts c = true) (before rest : Text) :
    (⟨run.reverse ++ before, rest⟩ : Place) ∈ (plus accepts).ends ⟨before, run ++ rest⟩ := by
  induction run generalizing before with
  | nil => exact absurd rfl hne
  | cons c later ih =>
    have hc := hrun c mem_cons_self
    cases later with
    | nil => exact mem_ends_plus before rest hc
    | cons d later =>
      have hlater := ih (cons_ne_nil d later)
        (fun other hother => hrun other (mem_cons_of_mem c hother)) (c :: before)
      rw [reverse_cons, append_assoc]
      exact mem_ends_plus_cons hc (hrun d (by simp)) hlater

theorem matchesStart_of_mem {regex : Regex} {text : Text} {last : Place}
    (h : last ∈ regex.ends ⟨[], text⟩) : regex.matchesStart text = true :=
  decide_eq_true (ne_nil_of_mem h)

/-- A character that some part of the expression accepts. -/
def Accepts : Regex -> Char -> Prop
  | .one accepts, c => accepts c = true
  | .seq first second, c => first.Accepts c ∨ second.Accepts c
  | .either first second, c => first.Accepts c ∨ second.Accepts c
  | .repeated _ _ body, c => body.Accepts c
  | .group body, c => body.Accepts c
  | _, _ => False

/-- Between the places stand only characters of a kind. -/
def Takes (allowed : Char -> Prop) (place last : Place) : Prop :=
  exists part, place.after = part ++ last.after ∧ forall c, c ∈ part -> allowed c

theorem Takes.refl (allowed : Char -> Prop) (place : Place) : Takes allowed place place :=
  ⟨[], rfl, fun _ hc => by cases hc⟩

variable {allowed : Char -> Prop}

theorem Takes.trans {place between last : Place}
    (hfirst : Takes allowed place between) (hsecond : Takes allowed between last) :
    Takes allowed place last := by
  rcases hfirst with ⟨first, hplace, hallowed⟩
  rcases hsecond with ⟨second, hbetween, hallowed'⟩
  refine ⟨first ++ second, by rw [hplace, hbetween, append_assoc], ?_⟩
  intro c hc
  rcases mem_append.mp hc with hc | hc
  · exact hallowed c hc
  · exact hallowed' c hc

theorem Takes.mono {allowed allowed' : Char -> Prop} (h : forall c, allowed c -> allowed' c) (htakes : Takes allowed place last) : Takes allowed' place last := by
  rcases htakes with ⟨part, hplace, hallowed⟩
  exact ⟨part, hplace, fun c hc => h c (hallowed c hc)⟩

variable {step : Place -> List Place}

theorem takes_exactly
    (hstep : forall place next, next ∈ step place -> Takes allowed place next) {rounds : Nat} (h : last ∈ exactly step rounds place) : Takes allowed place last := by
  induction rounds generalizing place with
  | zero =>
    rw [mem_singleton.mp h]
    exact Takes.refl allowed place
  | succ rounds ih =>
    rcases mem_flatMap.mp h with ⟨next, hnext, hlast⟩
    exact (hstep place next hnext).trans (ih hlast)

theorem takes_atMost
    (hstep : forall place next, next ∈ step place -> Takes allowed place next) {rounds : Nat} (h : last ∈ atMost step rounds place) : Takes allowed place last := by
  induction rounds generalizing place with
  | zero =>
    rw [mem_singleton.mp h]
    exact Takes.refl allowed place
  | succ rounds ih =>
    rcases mem_cons.mp h with heq | hlater
    · rw [heq]
      exact Takes.refl allowed place
    · rcases mem_flatMap.mp hlater with ⟨next, hnext, hlast⟩
      exact (hstep place next (mem_filter.mp hnext).left).trans (ih hlast)

theorem takes_of_mem_ite {condition : Prop} [Decidable condition] (h : last ∈ if condition then [place] else []) :
    Takes allowed place last := by
  split_ifs at h
  · rw [mem_singleton.mp h]
    exact Takes.refl allowed place
  · cases h

theorem takes_of_mem_ends {regex : Regex} (h : last ∈ regex.ends place) :
    Takes regex.Accepts place last := by
  induction regex generalizing place last with
  | empty =>
    rw [mem_singleton.mp h]
    exact Takes.refl _ place
  | one accepts =>
    rcases place with ⟨before, after⟩
    cases after with
    | nil => cases h
    | cons c rest =>
      have hone : last ∈ if accepts c = true then [⟨c :: before, rest⟩] else [] := h
      split_ifs at hone with haccepts
      · rw [mem_singleton.mp hone]
        refine ⟨[c], rfl, fun d hd => ?_⟩
        rw [mem_singleton.mp hd]
        exact haccepts
      · cases hone
  | start => exact takes_of_mem_ite h
  | stop => exact takes_of_mem_ite h
  | endOfText => exact takes_of_mem_ite h
  | boundary isBoundary => exact takes_of_mem_ite h
  | seq first second ihfirst ihsecond =>
    rcases mem_ends_seq.mp h with ⟨between, hbetween, hlast⟩
    exact ((ihfirst hbetween).mono fun _ => Or.inl).trans ((ihsecond hlast).mono fun _ => Or.inr)
  | either first second ihfirst ihsecond =>
    rcases mem_append.mp h with hfirst | hsecond
    · exact (ihfirst hfirst).mono fun _ => Or.inl
    · exact (ihsecond hsecond).mono fun _ => Or.inr
  | repeated least most body ih =>
    rcases mem_flatMap.mp h with ⟨between, hbetween, hlast⟩
    exact (takes_exactly (fun _ _ => ih) hbetween).trans (takes_atMost (fun _ _ => ih) hlast)
  | group body ih => exact ih h

/-- Why there is no pattern: an error, or a notation that is left open. -/
inductive PatternError where
  | invalid
  | leftOpen
deriving DecidableEq

/-- A group that is being read: the alternatives so far, and the items of the last one, both
backwards. -/
structure Frame where
  alternatives : List Regex
  items : List Regex

def seqAll : List Regex -> Regex
  | [] => .empty
  | first :: rest => .seq first (seqAll rest)

def eitherAll (first : Regex) : List Regex -> Regex
  | [] => first
  | second :: rest => .either first (eitherAll second rest)

theorem accepts_seqAll {items : List Regex} (h : (seqAll items).Accepts c) :
    exists item, item ∈ items ∧ item.Accepts c := by
  induction items with
  | nil => cases h
  | cons first rest ih =>
    rcases h with hfirst | hrest
    · exact ⟨first, mem_cons_self, hfirst⟩
    · rcases ih hrest with ⟨item, hitem, haccepts⟩
      exact ⟨item, mem_cons_of_mem first hitem, haccepts⟩

theorem mem_ends_seqAll_append {items later : List Regex} :
    last ∈ (seqAll (items ++ later)).ends place <->
      exists between, between ∈ (seqAll items).ends place ∧ last ∈ (seqAll later).ends between := by
  induction items generalizing place with
  | nil =>
    constructor
    · intro h
      exact ⟨place, mem_singleton_self _, h⟩
    · rintro ⟨between, hbetween, h⟩
      rw [mem_singleton.mp hbetween] at h
      exact h
  | cons first rest ih =>
    show last ∈ (Regex.seq first (seqAll (rest ++ later))).ends place <->
      exists between, between ∈ (Regex.seq first (seqAll rest)).ends place ∧ _
    simp only [mem_ends_seq, ih]
    constructor
    · rintro ⟨next, hnext, between, hbetween, h⟩
      exact ⟨between, ⟨next, hnext, hbetween⟩, h⟩
    · rintro ⟨between, ⟨next, hnext, hbetween⟩, h⟩
      exact ⟨next, hnext, between, hbetween, h⟩

namespace Frame

def empty : Frame where
  alternatives := []
  items := []

def push (frame : Frame) (item : Regex) : Frame :=
  { frame with items := item :: frame.items }

/-- `|` -/
def next (frame : Frame) : Frame where
  alternatives := seqAll frame.items.reverse :: frame.alternatives
  items := []

def close (frame : Frame) : Regex :=
  match (seqAll frame.items.reverse :: frame.alternatives).reverse with
  | [] => .empty
  | first :: rest => eitherAll first rest

end Frame

/-- An item that stands for a place and cannot be repeated. -/
def isPlace : Regex -> Bool
  | .start => true
  | .stop => true
  | .endOfText => true
  | .boundary _ => true
  | _ => false

def isRepeated : Regex -> Bool
  | .repeated _ _ _ => true
  | _ => false

/-- Repeat the last item; a question mark that follows only asks for few rounds first. -/
def repeatLast (least : Nat) (most : Option Nat) (frame : Frame) (rest : Text) :
    Except PatternError (Frame × Text) :=
  match frame.items with
  | [] => .error .invalid
  | item :: items =>
    if item.isPlace = true ∨ item.isRepeated = true then .error .invalid
    else .ok ({ frame with items := .repeated least most item :: items },
      if rest.head? = some '?' then rest.tail else rest)

def digitsValue (digits : Text) : Nat :=
  digits.foldl (fun value c => 10 * value + (c.toNat - 48)) 0

def bounds (rest : Text) : Option ((Option Nat × Option Nat) × Text) :=
  let low := rest.takeWhile isDigit
  let afterLow := rest.dropWhile isDigit
  let found (digits : Text) : Option Nat := if digits = [] then none else some (digitsValue digits)
  if rest.head? = some '\x7d' then none
  else if afterLow.head? = some ',' then
    let high := afterLow.tail.takeWhile isDigit
    let afterHigh := afterLow.tail.dropWhile isDigit
    if afterHigh.head? = some '\x7d' then some ((found low, found high), afterHigh.tail) else none
  else if afterLow.head? = some '\x7d' then some ((found low, found low), afterLow.tail)
  else none

def hexValue (c : Char) : Option Nat :=
  if isDigit c = true then some (c.toNat - 48)
  else if 'a' ≤ c ∧ c ≤ 'f' then some (c.toNat - 87)
  else if 'A' ≤ c ∧ c ≤ 'F' then some (c.toNat - 55)
  else none

/-- `\xhh` behind its letter. -/
def hexEscape : Text -> Except PatternError (Char × Text)
  | high :: low :: rest =>
    match hexValue high, hexValue low with
    | some high, some low => .ok (Char.ofNat (16 * high + low), rest)
    | _, _ => .error .invalid
  | _ => .error .invalid

def escapedChar (c : Char) : Char :=
  match c with
  | 'a' => '\x07'
  | 'f' => '\x0c'
  | 'n' => '\n'
  | 'r' => '\r'
  | 't' => '\t'
  | 'v' => '\x0b'
  | other => other

/-- `\d`, `\s`, `\w` and their complements. -/
def category (c : Char) : Option (Char -> Bool) :=
  match c with
  | 'd' => some isDigit
  | 'D' => some fun other => !isDigit other
  | 's' => some isSpace
  | 'S' => some fun other => !isSpace other
  | 'w' => some isWord
  | 'W' => some fun other => !isWord other
  | _ => none

/-- What stands behind a backslash outside of a class. -/
def escape : Text -> Except PatternError (Regex × Text)
  | [] => .error .invalid
  | c :: rest =>
    match category c with
    | some accepts => .ok (.one accepts, rest)
    | none =>
      match c with
      | 'A' => .ok (.start, rest)
      | 'Z' => .ok (.endOfText, rest)
      | 'b' => .ok (.boundary true, rest)
      | 'B' => .ok (.boundary false, rest)
      | 'x' => do
          let (value, rest) <- hexEscape rest
          return (.one fun other => other == value, rest)
      | other =>
        if isDigit other = true then .error .leftOpen
        else .ok (.one fun read => read == escapedChar other, rest)

def classMember : Text -> Except PatternError ((Char ⊕ (Char -> Bool)) × Text)
  | [] => .error .invalid
  | '\\' :: [] => .error .invalid
  | '\\' :: c :: rest =>
    match category c with
    | some accepts => .ok (.inr accepts, rest)
    | none =>
      match c with
      | 'b' => .ok (.inl '\x08', rest)
      | 'x' => do
          let (value, rest) <- hexEscape rest
          return (.inl value, rest)
      | other =>
        if isDigit other = true then .error .leftOpen
        else .ok (.inl (escapedChar other), rest)
  | c :: rest => .ok (.inl c, rest)

def memberAccepts : Char ⊕ (Char -> Bool) -> Char -> Bool
  | .inl c => fun other => other == c
  | .inr accepts => accepts

/-- A member or a range of a class, and whether the closing bracket has followed a hyphen. -/
def classPart (text : Text) : Except PatternError (((Char -> Bool) × Bool) × Text) :=
  match classMember text with
  | .error raised => .error raised
  | .ok (member, rest) =>
    if rest.head? = some '-' then
      if rest.tail.head? = some ']' then
        .ok ((fun other => memberAccepts member other || other == '-', true), rest.tail.tail)
      else
        match member, classMember rest.tail with
        | .inl low, .ok (.inl high, rest) =>
          if high < low then .error .invalid
          else .ok ((fun other => decide (low ≤ other) && decide (other ≤ high), false), rest)
        | _, .error raised => .error raised
        | _, _ => .error .invalid
    else .ok ((memberAccepts member, false), rest)

/-- The members of a class up to its closing bracket, which may come first as a member. -/
def classMembers : Nat -> Bool -> (Char -> Bool) -> Text ->
    Except PatternError ((Char -> Bool) × Text)
  | 0, _, _, _ => .error .invalid
  | fuel + 1, isFirst, held, text =>
    if text.head? = some ']' ∧ isFirst = false then .ok (held, text.tail)
    else
      match classPart text with
      | .error raised => .error raised
      | .ok ((accepts, isClosed), rest) =>
        if isClosed = true then .ok (fun c => held c || accepts c, rest)
        else classMembers fuel false (fun c => held c || accepts c) rest

def classItem (text : Text) : Except PatternError (Regex × Text) :=
  if text.head? = some '^' then do
    let (accepts, rest) <- classMembers text.length true (fun _ => false) text.tail
    return (.one fun c => !accepts c, rest)
  else do
    let (accepts, rest) <- classMembers (text.length + 1) true (fun _ => false) text
    return (.one accepts, rest)

/-- Read a pattern item by item, within the groups that are open. -/
def readPattern : Nat -> List Frame -> Frame -> Text -> Except PatternError Regex
  | 0, _, _, _ => .error .invalid
  | _ + 1, outer, frame, [] => if outer = [] then .ok frame.close else .error .invalid
  | fuel + 1, outer, frame, c :: rest =>
    if c = '|' then readPattern fuel outer frame.next rest
    else if c = ')' then
      match outer with
      | [] => .error .invalid
      | parent :: outer => readPattern fuel outer (parent.push (.group frame.close)) rest
    else if c = '(' then
      if rest.head? = some '?' then .error .leftOpen
      else readPattern fuel (frame :: outer) Frame.empty rest
    else if c = '.' then readPattern fuel outer (frame.push (.one fun other => other != '\n')) rest
    else if c = '^' then readPattern fuel outer (frame.push .start) rest
    else if c = '$' then readPattern fuel outer (frame.push .stop) rest
    else if c = '[' then do
      let (item, rest) <- classItem rest
      readPattern fuel outer (frame.push item) rest
    else if c = '\\' then do
      let (item, rest) <- escape rest
      readPattern fuel outer (frame.push item) rest
    else if c = '*' then do
      let (frame, rest) <- repeatLast 0 none frame rest
      readPattern fuel outer frame rest
    else if c = '+' then do
      let (frame, rest) <- repeatLast 1 none frame rest
      readPattern fuel outer frame rest
    else if c = '?' then do
      let (frame, rest) <- repeatLast 0 (some 1) frame rest
      readPattern fuel outer frame rest
    else if c = '\x7b' then
      match bounds rest with
      | none => readPattern fuel outer (frame.push (.one fun other => other == c)) rest
      | some ((least, most), rest) =>
        if most.any (· < least.getD 0) = true then .error .invalid
        else do
          let (frame, rest) <- repeatLast (least.getD 0) most frame rest
          readPattern fuel outer frame rest
    else readPattern fuel outer (frame.push (.one fun other => other == c)) rest

/-- `re.compile`, with a parameter for the notations that are left open; a pattern is what it says
of a text whether `re.match` finds a match. -/
def compile (leftOpen : Text -> Option (Text -> Bool)) (pattern : Text) : Option (Text -> Bool) :=
  match readPattern (pattern.length + 1) [] Frame.empty pattern with
  | .ok regex => some regex.matchesStart
  | .error .leftOpen => leftOpen pattern
  | .error .invalid => none

theorem Frame.close_eq {frame : Frame} (h : frame.alternatives = []) :
    frame.close = seqAll frame.items.reverse := by
  unfold close
  rw [h]
  rfl

/-- The characters that stand for more than themselves. -/
def patternChars : Text := "|)(.^$[\\*+?\x7b".toList

theorem readPattern_plain (h : c ∉ patternChars) (fuel : Nat) (outer : List Frame)
    (frame : Frame) (rest : Text) :
    readPattern (fuel + 1) outer frame (c :: rest) =
      readPattern fuel outer (frame.push (.one fun other => other == c)) rest := by
  have hne : forall d, d ∈ patternChars -> ¬ c = d := fun d hd heq => h (heq ▸ hd)
  rw [readPattern.eq_def]
  dsimp only
  rw [if_neg (hne '|' (by decide)), if_neg (hne ')' (by decide)),
    if_neg (hne '(' (by decide)), if_neg (hne '.' (by decide)), if_neg (hne '^' (by decide)),
    if_neg (hne '$' (by decide)), if_neg (hne '[' (by decide)), if_neg (hne '\\' (by decide)),
    if_neg (hne '*' (by decide)), if_neg (hne '+' (by decide)), if_neg (hne '?' (by decide)),
    if_neg (hne '\x7b' (by decide))]

theorem bounds_eq_none {text : Text} (hdigits : forall c, c ∈ text -> isDigit c = false)
    (h : ¬ [',', '\x7d'] <+: text) : bounds text = none := by
  have hplain : forall part : Text, (forall c, c ∈ part -> isDigit c = false) ->
      part.takeWhile isDigit = [] ∧ part.dropWhile isDigit = part := by
    intro part hpart
    cases part with
    | nil => exact ⟨rfl, rfl⟩
    | cons c rest =>
      have hc : ¬ isDigit c = true := Bool.eq_false_iff.mp (hpart c mem_cons_self)
      exact ⟨takeWhile_cons_of_neg hc, dropWhile_cons_of_neg hc⟩
  have htail := hplain text.tail fun c hc => hdigits c (mem_of_mem_tail hc)
  unfold bounds
  dsimp only
  rw [(hplain text hdigits).right, htail.right]
  split_ifs with hclosed hcomma hafter
  · rfl
  · exfalso
    cases text with
    | nil => cases hcomma
    | cons c rest =>
      injection hcomma with hc
      cases rest with
      | nil => cases hafter
      | cons d rest =>
        injection hafter with hd
        exact h ⟨rest, by rw [hc, hd]; rfl⟩
  · rfl
  · rfl

/-- `*`, `+` and `?` repeat the last item. -/
theorem readPattern_quantifier (h : c = '*' ∨ c = '+' ∨ c = '?') :
    exists least most, forall (fuel : Nat) (outer : List Frame) (frame : Frame) (rest : Text),
      readPattern (fuel + 1) outer frame (c :: rest) =
        (repeatLast least most frame rest >>= fun read => readPattern fuel outer read.1 read.2) := by
  rcases h with rfl | rfl | rfl
  · exact ⟨0, none, fun _ _ _ _ => rfl⟩
  · exact ⟨1, none, fun _ _ _ _ => rfl⟩
  · exact ⟨0, some 1, fun _ _ _ _ => rfl⟩

theorem repeatLast_cases (least : Nat) (most : Option Nat) (frame : Frame) (rest : Text) :
    repeatLast least most frame rest = .error .invalid ∨
      exists item items, frame.items = item :: items ∧
        repeatLast least most frame rest =
          .ok ({ frame with items := .repeated least most item :: items },
            if rest.head? = some '?' then rest.tail else rest) := by
  unfold repeatLast
  cases hitems : frame.items with
  | nil => exact Or.inl rfl
  | cons item items =>
    dsimp only
    split_ifs
    · exact Or.inl rfl
    · exact Or.inr ⟨item, items, rfl, rfl⟩
    · exact Or.inr ⟨item, items, rfl, rfl⟩

theorem readPattern_close (fuel : Nat) (frame : Frame) (rest : Text) :
    readPattern (fuel + 1) [] frame (')' :: rest) = .error .invalid := rfl

theorem readPattern_dot (fuel : Nat) (outer : List Frame) (frame : Frame) (rest : Text) :
    readPattern (fuel + 1) outer frame ('.' :: rest) =
      readPattern fuel outer (frame.push (.one fun other => other != '\n')) rest := rfl

theorem readPattern_start (fuel : Nat) (outer : List Frame) (frame : Frame) (rest : Text) :
    readPattern (fuel + 1) outer frame ('^' :: rest) =
      readPattern fuel outer (frame.push .start) rest := rfl

theorem readPattern_dollar (fuel : Nat) (outer : List Frame) (frame : Frame) (rest : Text) :
    readPattern (fuel + 1) outer frame ('$' :: rest) =
      readPattern fuel outer (frame.push .stop) rest := rfl

/-- `$` at the end of the pattern. -/
theorem readPattern_stop (fuel : Nat) (frame : Frame) :
    readPattern (fuel + 2) [] frame ['$'] = .ok (frame.push .stop).close := rfl

theorem readPattern_brace {rest : Text} (h : bounds rest = none) (fuel : Nat) (outer : List Frame)
    (frame : Frame) :
    readPattern (fuel + 1) outer frame ('\x7b' :: rest) =
      readPattern fuel outer (frame.push (.one fun other => other == '\x7b')) rest := by
  rw [readPattern.eq_def]
  dsimp only
  rw [h]
  rfl

/-- `\d+` -/
theorem readPattern_run (fuel : Nat) (outer : List Frame) (frame : Frame) (rest : Text) :
    readPattern (fuel + 2) outer frame ('\\' :: 'd' :: '+' :: rest) =
      (repeatLast 1 none (frame.push (.one isDigit)) rest >>= fun read =>
        readPattern fuel outer read.1 read.2) := rfl

theorem readPattern_digits {rest : Text} (h : rest.head? ≠ some '?') (fuel : Nat)
    (outer : List Frame) (frame : Frame) :
    readPattern (fuel + 2) outer frame ('\\' :: 'd' :: '+' :: rest) =
      readPattern fuel outer (frame.push (plus isDigit)) rest := by
  have hrepeat : repeatLast 1 none (frame.push (.one isDigit)) rest =
      .ok (frame.push (plus isDigit), rest) := by
    show Except.ok (_, if rest.head? = some '?' then _ else rest) = _
    rw [if_neg h]
    rfl
  rw [readPattern_run, hrepeat]
  rfl

end Regex

end Icsw.Foundation
