import Icsw.HmDirect.PingBookkeeping

/-!
# Runs of the ping protocol

The invariant ties each item that is not handled to the call it belongs to, and each group to the
items whose results are missing.  An update finishes an item at most once.
-/

namespace Icsw.HmDirect

open Foundation List

namespace IcmpProtocol

variable (icmp : IcmpProtocol)

variable (seqStr : Text)

def Unanswered : Prop :=
  forall result, result ∈ icmp.results -> result.seqStr ≠ seqStr

def Named (key : Text) : Prop :=
  key ∈ icmp.calls ∨ exists idx, idx < icmp.groupIdx ∧ key = groupKey idx

/-- How the result of an item gets to its call. -/
def Linked (key seqStr : Text) (call : Call) : Prop :=
  call.targets.length = 1 ∧ key = seqStr ∧ icmp.groups.lookup key = none ∧
      icmp.Unanswered key ∨
    1 < call.targets.length ∧ icmp.groups.lookup key = some (.memberOf seqStr)

def Waiting (key host : Text) (num : Nat) : Prop :=
  exists seqStr call, icmp.calls.lookup seqStr = some call ∧ call.Targeted key host ∧
    num ≤ call.num ∧ icmp.Linked key seqStr call

structure Inv : Prop where
  book : icmp.Bookkept
  handled : forall key, key ∈ icmp.handled -> key ∈ icmp.work
  mapped : forall seqno key, icmp.seqnos.lookup seqno = some key ->
    exists value, icmp.work.lookup key = some value ∧ seqno ∈ value.sentList
  counted : forall key value, icmp.work.lookup key = some value -> value.Counted
  waiting : forall key value, icmp.work.lookup key = some value -> key ∉ icmp.handled ->
    icmp.Waiting key value.host value.num
  member : forall key seqStr, icmp.groups.lookup key = some (.memberOf seqStr) ->
    exists results, icmp.groups.lookup seqStr = some (.members results) ∧
      results.lookup key = some none
  members : forall seqStr results, icmp.groups.lookup seqStr = some (.members results) ->
    icmp.Unanswered seqStr ∧
      exists call, icmp.calls.lookup seqStr = some call ∧ call.Collects results
  workNamed : forall key, key ∈ icmp.work -> icmp.Named key
  groupsNamed : forall key, key ∈ icmp.groups -> icmp.Named key
  callsNamed : forall seqStr, seqStr ∈ icmp.calls -> forall idx, seqStr ≠ groupKey idx

theorem inv_initial (pid : Nat) : (initial pid).Inv where
  book := ⟨fun _ => Nat.zero_le 1, fun _ hmem => absurd hmem not_mem_nil, rfl, rfl⟩
  handled key hkey := absurd hkey (Finset.notMem_empty key)
  mapped seqno key hmapped := absurd hmapped (by rw [initial, AList.lookup_empty]; nofun)
  counted key value hitem := absurd hitem (by rw [initial, AList.lookup_empty]; nofun)
  waiting key value hitem := absurd hitem (by rw [initial, AList.lookup_empty]; nofun)
  member key seqStr hkey := absurd hkey (by rw [initial, AList.lookup_empty]; nofun)
  members seqStr results hkey := absurd hkey (by rw [initial, AList.lookup_empty]; nofun)
  workNamed key hkey := absurd hkey (AList.notMem_empty key)
  groupsNamed key hkey := absurd hkey (AList.notMem_empty key)
  callsNamed seqStr hseqStr := absurd hseqStr (AList.notMem_empty seqStr)

theorem mem_keySet {V : Type} {dict : Dict Text V} {key : Text} : key ∈ keySet dict <-> key ∈ dict :=
  mem_toFinset.trans AList.mem_keys.symm

theorem mem_unhandled {icmp : IcmpProtocol} {key : Text} :
    key ∈ icmp.unhandled <-> key ∈ icmp.work ∧ key ∉ icmp.handled := by
  rw [unhandled, Finset.mem_sdiff, mem_keySet]

/-!
## Echos that are sent or received
-/

/-- What an item keeps, whatever is sent or received for it. -/
structure Later (value after : WorkItem) : Prop where
  host : after.host = value.host
  num : after.num = value.num
  counted : value.Counted -> after.Counted
  sent : forall seqno, seqno ∈ value.sentList -> seqno ∈ after.sentList

theorem Later.trans {value after last : WorkItem} (h : Later value after) (h' : Later after last) :
    Later value last where
  host := h'.host.trans h.host
  num := h'.num.trans h.num
  counted hcounted := h'.counted (h.counted hcounted)
  sent seqno hseqno := h'.sent seqno (h.sent seqno hseqno)

theorem later_failOverdue (value : WorkItem) (now : Rat) : Later value (value.failOverdue now) :=
  ⟨rfl, rfl, fun h => WorkItem.counted_failOverdue h now, fun _ h => h⟩

theorem inv_sent {icmp : IcmpProtocol} (h : icmp.Inv) {key : Text} {value after : WorkItem}
    (hitem : icmp.work.lookup key = some value) (hlater : Later value after) (echoSeqno : Nat)
    {seqnos : Dict Int Text} (hseqnos : forall seqno other, seqnos.lookup seqno = some other ->
      icmp.seqnos.lookup seqno = some other ∨ other = key ∧ seqno ∈ after.sentList) :
    ({ icmp with echoSeqno := echoSeqno, seqnos := seqnos }.setItem key after).Inv := by
  have hkey : key ∈ icmp.work := Dict.mem_of_lookup hitem
  have hmem : forall other, other ∈ icmp.work.insert key after -> other ∈ icmp.work := by
    intro other hother
    rcases (AList.mem_insert _).mp hother with rfl | hheld
    · exact hkey
    · exact hheld
  have hunhandled : keySet (icmp.work.insert key after) = keySet icmp.work := by
    ext other
    rw [mem_keySet, mem_keySet]
    exact ⟨hmem other, fun hother => (AList.mem_insert _).mpr (.inr hother)⟩
  refine ⟨⟨h.book.once, h.book.answered, ?_, h.book.running⟩, ?_, ?_, ?_, ?_, h.member, h.members,
    ?_, h.groupsNamed, h.callsNamed⟩
  · show icmp.pingsInFlight =
      (keySet (icmp.work.insert key after) \ icmp.handled).card
    rw [hunhandled]
    exact h.book.inFlight
  · intro other hother
    exact (AList.mem_insert _).mpr (.inr (h.handled other hother))
  · intro seqno other hother
    show exists held, (icmp.work.insert key after).lookup other = some held ∧
      seqno ∈ held.sentList
    rcases hseqnos seqno other hother with hold | ⟨rfl, hsent⟩
    · rcases h.mapped seqno other hold with ⟨held, hheld, hsent⟩
      by_cases heq : other = key
      · subst heq
        rw [hitem] at hheld
        cases hheld
        exact ⟨after, AList.lookup_insert _, hlater.sent seqno hsent⟩
      · exact ⟨held, by rw [AList.lookup_insert_ne heq]; exact hheld, hsent⟩
    · exact ⟨after, AList.lookup_insert _, hsent⟩
  · intro other held hheld
    rcases Dict.lookup_insert_eq_some.mp hheld with ⟨_, rfl⟩ | ⟨_, hheld⟩
    · exact hlater.counted (h.counted key value hitem)
    · exact h.counted other held hheld
  · intro other held hheld hopen
    rcases Dict.lookup_insert_eq_some.mp hheld with ⟨rfl, rfl⟩ | ⟨_, hheld⟩
    · rw [hlater.host, hlater.num]
      exact h.waiting key value hitem hopen
    · exact h.waiting other held hheld hopen
  · intro other hother
    exact h.workNamed other (hmem other hother)

theorem trySend_spec (key : Text) (value : WorkItem) (moment : Moment) :
    exists echoSeqno seqnos, (icmp.trySend key value moment).1 =
        { icmp with echoSeqno := echoSeqno, seqnos := seqnos } ∧
      Later value (icmp.trySend key value moment).2 ∧
      forall seqno other, seqnos.lookup seqno = some other ->
        icmp.seqnos.lookup seqno = some other ∨
          other = key ∧ seqno ∈ (icmp.trySend key value moment).2.sentList := by
  unfold trySend
  split
  · rename_i hdue
    have hbounded : value.sent + 1 ≤ value.num := hdue.left
    cases hecho : moment.echo with
    | error raised =>
      refine ⟨icmp.nextSeqno, icmp.seqnos, rfl, ⟨rfl, rfl, ?_, fun _ hseqno => hseqno⟩,
        fun _ _ hother => .inl hother⟩
      intro hcounted
      exact ⟨hcounted.counted, hcounted.answered, Nat.le_succ_of_le hcounted.sent, hbounded⟩
    | ok time =>
      refine ⟨icmp.nextSeqno, icmp.seqnos.insert icmp.nextSeqno key, rfl,
        ⟨rfl, rfl, ?_, ?_⟩, ?_⟩
      · intro hcounted
        refine ⟨hcounted.counted, ?_, ?_, hbounded⟩
        · intro seqno hseqno
          exact (AList.mem_insert _).mpr (.inr (hcounted.answered seqno hseqno))
        · show (value.sentList.insert _ time).keys.length ≤ value.sent + 1
          rw [WorkItem.length_keys_insert]
          have hsent := hcounted.sent
          split <;> omega
      · intro seqno hseqno
        exact (AList.mem_insert _).mpr (.inr hseqno)
      · intro seqno other hother
        rcases Dict.lookup_insert_eq_some.mp hother with ⟨rfl, rfl⟩ | ⟨_, hold⟩
        · exact .inr ⟨rfl, (AList.mem_insert _).mpr (.inl rfl)⟩
        · exact .inl hold
  · exact ⟨icmp.echoSeqno, icmp.seqnos, rfl, ⟨rfl, rfl, id, fun _ hseqno => hseqno⟩,
      fun _ _ hother => .inl hother⟩

/-!
## Items that are finished
-/

def resultsFor (results : List PingResult) (seqStr : Text) : Nat :=
  results.countP fun result => result.seqStr = seqStr

theorem resultsFor_append (results : List PingResult) (result : PingResult) (seqStr : Text) :
    resultsFor (results ++ [result]) seqStr =
      resultsFor results seqStr + if result.seqStr = seqStr then 1 else 0 := by
  rw [resultsFor, countP_append, resultsFor]
  by_cases h : result.seqStr = seqStr
  · rw [countP_singleton, if_pos (decide_eq_true h), if_pos h]
  · rw [countP_singleton, if_neg (by simpa using h), if_neg h]

theorem once_append {icmp : IcmpProtocol} (h : icmp.Bookkept) {result : PingResult}
    (hnew : icmp.Unanswered result.seqStr) (seqStr : Text) :
    resultsFor (icmp.results ++ [result]) seqStr ≤ 1 := by
  rw [resultsFor_append]
  by_cases heq : result.seqStr = seqStr
  · have hnone : resultsFor icmp.results seqStr = 0 := by
      apply countP_eq_zero.mpr
      intro held hheld
      have hne := hnew held hheld
      rw [heq] at hne
      simpa using hne
    rw [hnone, if_pos heq]
  · rw [if_neg heq]
    exact h.once seqStr

theorem unanswered_append {icmp : IcmpProtocol} {result : PingResult} {seqStr : Text}
    (h : icmp.Unanswered seqStr) (hne : result.seqStr ≠ seqStr) :
    { icmp with results := icmp.results ++ [result] }.Unanswered seqStr := by
  intro held hheld
  rcases mem_append.mp hheld with hold | hnew
  · exact h held hold
  · rw [mem_singleton.mp hnew]
    exact hne

/-- An item is finished. -/
def done (key : Text) (results : List PingResult) (groups : Dict Text GroupEntry) : IcmpProtocol :=
  { icmp with
    results := results
    groups := groups
    handled := insert key icmp.handled
    pingsInFlight := icmp.pingsInFlight - 1 }

variable {results : List PingResult} {groups : Dict Text GroupEntry}

theorem inv_handled {icmp : IcmpProtocol} (h : icmp.Inv) {key : Text}
    (hkey : key ∈ icmp.work) (hopen : key ∉ icmp.handled)
    (honce : forall seqStr, resultsFor results seqStr ≤ 1)
    (hanswered : forall result, result ∈ results ->
      exists call, icmp.calls.lookup result.seqStr = some call ∧ call.Answered result.report)
    (hlinked : forall other seqStr call, other ≠ key -> icmp.Linked other seqStr call ->
      (icmp.done key results groups).Linked other seqStr call)
    (hmember : forall other seqStr, groups.lookup other = some (.memberOf seqStr) ->
      exists tuples, groups.lookup seqStr = some (.members tuples) ∧
        tuples.lookup other = some none)
    (hmembers : forall seqStr tuples, groups.lookup seqStr = some (.members tuples) ->
      (icmp.done key results groups).Unanswered seqStr ∧
        exists call, icmp.calls.lookup seqStr = some call ∧ call.Collects tuples)
    (hgroups : forall other, other ∈ groups -> other ∈ icmp.groups) :
    (icmp.done key results groups).Inv := by
  have hunhandled : (icmp.done key results groups).unhandled = icmp.unhandled.erase key := by
    ext other
    rw [mem_unhandled, Finset.mem_erase, mem_unhandled]
    show other ∈ icmp.work ∧ other ∉ insert key icmp.handled <-> _
    rw [Finset.mem_insert, not_or]
    exact and_left_comm
  refine ⟨⟨honce, hanswered, ?_, h.book.running⟩, ?_, h.mapped, h.counted, ?_, hmember, hmembers,
    h.workNamed, fun other hother => h.groupsNamed other (hgroups other hother), h.callsNamed⟩
  · have hmem : key ∈ icmp.unhandled := mem_unhandled.mpr ⟨hkey, hopen⟩
    have hpos : 0 < icmp.unhandled.card := Finset.card_pos.mpr ⟨key, hmem⟩
    rw [hunhandled, Finset.card_erase_of_mem hmem]
    show icmp.pingsInFlight - 1 = _
    rw [h.book.inFlight]
    omega
  · intro other hother
    rcases Finset.mem_insert.mp hother with rfl | hheld
    · exact hkey
    · exact h.handled other hheld
  · intro other value hitem hother
    rcases not_or.mp (mt Finset.mem_insert.mpr hother) with ⟨hne, hwaits⟩
    rcases h.waiting other value hitem hwaits with ⟨seqStr, call, hcall, hfits, hnum, hlink⟩
    exact ⟨seqStr, call, hcall, hfits, hnum, hlinked other seqStr call hne hlink⟩

variable {value : WorkItem}

theorem inv_finishSingle {icmp : IcmpProtocol} (h : icmp.Inv) {key : Text}
    {call : Call} (hitem : icmp.work.lookup key = some value)
    (hopen : key ∉ icmp.handled) (hcall : icmp.calls.lookup key = some call)
    (hnum : value.num ≤ call.num) (hone : call.targets.length = 1)
    (hgroup : icmp.groups.lookup key = none) (hnew : icmp.Unanswered key) :
    exists after, icmp.finish key value = .ok after ∧ after.Inv := by
  have hcounted := h.counted key value hitem
  let result : PingResult :=
    ⟨key, .single value.sent value.recvOk value.allTimes value.errors⟩
  refine ⟨icmp.done key (icmp.results ++ [result]) icmp.groups, ?_, ?_⟩
  · rw [finish, report, hgroup]
    rfl
  · refine inv_handled h (Dict.mem_of_lookup hitem) hopen (once_append h.book hnew) ?_ ?_ h.member ?_
      fun _ hother => hother
    · intro held hheld
      rcases mem_append.mp hheld with hold | hlast
      · exact h.book.answered held hold
      · rw [mem_singleton.mp hlast]
        exact ⟨call, hcall, hone, hcounted.recvOk_le, hcounted.bounded.trans hnum⟩
    · intro other seqStr call hne hlink
      rcases hlink with ⟨hlength, heq, hnone, hunanswered⟩ | hlater
      · exact .inl ⟨hlength, heq, hnone, unanswered_append hunanswered fun h => hne h.symm⟩
      · exact .inr hlater
    · intro seqStr results hmembers
      rcases h.members seqStr results hmembers with ⟨hunanswered, hcollects⟩
      refine ⟨unanswered_append hunanswered ?_, hcollects⟩
      intro (heq : key = seqStr)
      rw [<- heq, hgroup] at hmembers
      cases hmembers

theorem inv_collected {icmp : IcmpProtocol} (h : icmp.Inv) {key seqStr : Text}
    (hkey : key ∈ icmp.work) (hopen : key ∉ icmp.handled)
    (honce : forall name, resultsFor results name ≤ 1)
    (hanswered : forall result, result ∈ results ->
      exists call, icmp.calls.lookup result.seqStr = some call ∧ call.Answered result.report)
    {tuples : Dict Text (Option PingTuple)} {tuple : PingTuple} {call : Call}
    (hgroup : icmp.groups.lookup key = some (.memberOf seqStr))
    (hresults : icmp.groups.lookup seqStr = some (.members tuples))
    (hcall : icmp.calls.lookup seqStr = some call)
    (hcollected : call.Collects (tuples.insert key (some tuple)))
    (hgone : groups.lookup key = none)
    (hothers : forall other, other ≠ key -> other ≠ seqStr ->
      groups.lookup other = icmp.groups.lookup other)
    (hentry : forall entry, groups.lookup seqStr = some entry ->
      entry = .members (tuples.insert key (some tuple)) ∧ (icmp.done key results groups).Unanswered seqStr)
    (hmissing : forall other, (tuples.insert key (some tuple)).lookup other = some none ->
      groups.lookup seqStr = some (.members (tuples.insert key (some tuple))))
    (hunanswered : forall name, name ≠ seqStr -> icmp.Unanswered name ->
      (icmp.done key results groups).Unanswered name) : (icmp.done key results groups).Inv := by
  have hheld : forall {other entry}, groups.lookup other = some entry -> other ≠ seqStr ->
      other ≠ key ∧ icmp.groups.lookup other = some entry := by
    intro other entry hother hname
    have hne : other ≠ key := by
      rintro rfl
      rw [hgone] at hother
      cases hother
    exact ⟨hne, (hothers other hne hname).symm.trans hother⟩
  refine inv_handled h hkey hopen honce hanswered ?_ ?_ ?_ ?_
  · intro other name named hne hlink
    rcases hlink with ⟨hlength, heq, hnone, hopenStill⟩ | ⟨hlength, hmember⟩
    · have hname : other ≠ seqStr := by
        rintro rfl
        rw [hresults] at hnone
        cases hnone
      exact .inl ⟨hlength, heq, (hothers other hne hname).trans hnone,
        hunanswered other hname hopenStill⟩
    · have hname : other ≠ seqStr := by
        rintro rfl
        rw [hresults] at hmember
        cases hmember
      exact .inr ⟨hlength, (hothers other hne hname).trans hmember⟩
  · intro other name hmember
    have hname : other ≠ seqStr := by
      rintro rfl
      cases (hentry _ hmember).left
    rcases hheld hmember hname with ⟨hne, hbefore⟩
    rcases h.member other name hbefore with ⟨kept, hkept, hstill⟩
    by_cases hsame : name = seqStr
    · subst hsame
      rw [hresults] at hkept
      cases hkept
      have hlater : (tuples.insert key (some tuple)).lookup other = some none := by
        rw [AList.lookup_insert_ne hne]
        exact hstill
      exact ⟨tuples.insert key (some tuple), hmissing other hlater, hlater⟩
    · have hnameKey : name ≠ key := by
        rintro rfl
        rw [hgroup] at hkept
        cases hkept
      exact ⟨kept, (hothers name hnameKey hsame).trans hkept, hstill⟩
  · intro name kept hkept
    by_cases hsame : name = seqStr
    · subst hsame
      rcases hentry _ hkept with ⟨heq, hopenStill⟩
      cases heq
      exact ⟨hopenStill, call, hcall, hcollected⟩
    · rcases h.members name kept (hheld hkept hsame).right with ⟨hopenStill, hcollects⟩
      exact ⟨hunanswered name hsame hopenStill, hcollects⟩
  · intro other hother
    rcases Dict.exists_lookup hother with ⟨entry, hlookup⟩
    by_cases hsame : other = seqStr
    · subst hsame
      exact Dict.mem_of_lookup hresults
    · exact Dict.mem_of_lookup (hheld hlookup hsame).right

theorem inv_finishMember {icmp : IcmpProtocol} (h : icmp.Inv) {key seqStr : Text}
    {call : Call} (hitem : icmp.work.lookup key = some value)
    (hopen : key ∉ icmp.handled) (hcall : icmp.calls.lookup seqStr = some call)
    (htargeted : call.Targeted key value.host) (hnum : value.num ≤ call.num)
    (hgroup : icmp.groups.lookup key = some (.memberOf seqStr)) :
    exists after, icmp.finish key value = .ok after ∧ after.Inv := by
  have hcounted := h.counted key value hitem
  rcases h.member key seqStr hgroup with ⟨results, hresults, hmissing⟩
  rcases h.members seqStr results hresults with ⟨hunanswered, held, hheld, hcollects⟩
  rw [hcall] at hheld
  cases hheld
  have hself : seqStr ≠ key := by
    rintro rfl
    rw [hgroup] at hresults
    cases hresults
  let tuple : PingTuple := ⟨value.host, value.sent, value.recvOk, value.allTimes, value.errors⟩
  have hcollected : call.Collects (results.insert key (some tuple)) :=
    Call.collects_insert hcollects (Dict.mem_of_lookup hmissing) htargeted
      ⟨hcounted.recvOk_le, hcounted.bounded.trans hnum⟩
  cases hdone : allDone (results.insert key (some tuple)) with
  | some tuples =>
    refine ⟨icmp.done key (icmp.results ++ [⟨seqStr, .group tuples⟩])
      ((icmp.groups.erase seqStr).erase key), ?_, ?_⟩
    · rw [finish, report, hgroup]
      dsimp only
      rw [hresults]
      dsimp only
      rw [hdone]
      rfl
    · have hseqStr : ((icmp.groups.erase seqStr).erase key).lookup seqStr = none := by
        rw [AList.lookup_erase_ne hself, AList.lookup_erase]
      refine inv_collected h (Dict.mem_of_lookup hitem) hopen (once_append h.book hunanswered)
        ?_ hgroup hresults hcall hcollected (AList.lookup_erase _ _) ?_ ?_ ?_ ?_
      · intro result hresult
        rcases mem_append.mp hresult with hold | hlast
        · exact h.book.answered result hold
        · rw [mem_singleton.mp hlast]
          exact ⟨call, hcall, Call.answered_of_collects hcollected hdone⟩
      · intro other hne hname
        show ((icmp.groups.erase seqStr).erase key).lookup other = _
        rw [AList.lookup_erase_ne hne, AList.lookup_erase_ne hname]
      · intro entry hheld
        cases hseqStr.symm.trans hheld
      · intro other hstill
        cases (some_of_allDone hdone hstill : (none : Option PingTuple).isSome = true)
      · intro name hname hopenStill
        exact unanswered_append hopenStill fun heq => hname heq.symm
  | none =>
    refine ⟨icmp.done key icmp.results ((icmp.groups.insert seqStr
      (.members (results.insert key (some tuple)))).erase key), ?_, ?_⟩
    · rw [finish, report, hgroup]
      dsimp only
      rw [hresults]
      dsimp only
      rw [hdone]
      rfl
    · have hseqStr : ((icmp.groups.insert seqStr
          (.members (results.insert key (some tuple)))).erase key).lookup seqStr =
            some (.members (results.insert key (some tuple))) := by
        rw [AList.lookup_erase_ne hself, AList.lookup_insert]
      refine inv_collected h (Dict.mem_of_lookup hitem) hopen h.book.once h.book.answered hgroup
        hresults hcall hcollected (AList.lookup_erase _ _) ?_ ?_ (fun _ _ => hseqStr)
        fun _ _ hopenStill => hopenStill
      · intro other hne hname
        show (AList.erase key _).lookup other = _
        rw [AList.lookup_erase_ne hne, AList.lookup_insert_ne hname]
      · intro entry hheld
        exact ⟨Option.some.inj (hheld.symm.trans hseqStr), hunanswered⟩

theorem inv_finish {icmp : IcmpProtocol} (h : icmp.Inv) {key : Text}
    (hitem : icmp.work.lookup key = some value) (hopen : key ∉ icmp.handled) :
    exists after, icmp.finish key value = .ok after ∧ after.Inv := by
  rcases h.waiting key value hitem hopen with ⟨seqStr, call, hcall, htargeted, hnum, hlink⟩
  rcases hlink with ⟨hone, rfl, hnone, hunanswered⟩ | ⟨_, hmember⟩
  · exact inv_finishSingle h hitem hopen hcall hnum hone hnone hunanswered
  · exact inv_finishMember h hitem hopen hcall htargeted hnum hmember

theorem inv_update {icmp : IcmpProtocol} (h : icmp.Inv) (key : Text) (fromReply : Bool)
    (moment : Moment) :
    exists after, icmp.update key fromReply moment = .ok after ∧ after.Inv := by
  unfold update
  cases hitem : icmp.work.lookup key with
  | none => exact ⟨icmp, rfl, h⟩
  | some value =>
    dsimp only
    by_cases hopen : key ∈ icmp.handled
    · rw [if_pos hopen]
      exact ⟨icmp, rfl, h⟩
    · rw [if_neg hopen]
      rcases trySend_spec icmp key value moment with
        ⟨echoSeqno, seqnos, hprotocol, hlater, hseqnos⟩
      rw [hprotocol]
      generalize (icmp.trySend key value moment).2 = tried at hlater hseqnos
      have hfailed : Later tried (if fromReply then tried else tried.failOverdue moment.now) := by
        cases fromReply with
        | true => exact ⟨rfl, rfl, id, fun _ hseqno => hseqno⟩
        | false => exact later_failOverdue tried moment.now
      generalize (if fromReply then tried else tried.failOverdue moment.now) = last at hfailed
      have hinv := inv_sent h hitem (hlater.trans hfailed) echoSeqno fun seqno other hother =>
        (hseqnos seqno other hother).imp id fun hsent =>
          ⟨hsent.left, hfailed.sent seqno hsent.right⟩
      by_cases hfinished : last.finished moment.now
      · rw [if_pos hfinished]
        exact inv_finish hinv (AList.lookup_insert _) hopen
      · rw [if_neg hfinished]
        exact ⟨_, rfl, hinv⟩

theorem inv_updates {icmp : IcmpProtocol} (h : icmp.Inv) (keys : List Text)
    (moments : Text -> Moment) :
    exists after, keys.foldlM (fun icmp key => icmp.update key false (moments key))
      icmp = .ok after ∧ after.Inv := by
  induction keys generalizing icmp with
  | nil => exact ⟨icmp, rfl, h⟩
  | cons key rest ih =>
    rcases inv_update h key false (moments key) with ⟨after, hafter, hinv⟩
    rw [foldlM_cons, hafter]
    exact ih hinv

theorem inv_received {icmp : IcmpProtocol} (h : icmp.Inv) (dgram : Option EchoReply)
    (recvTime : Rat) (moment : Moment) :
    exists after, icmp.received dgram recvTime moment = .ok after ∧ after.Inv := by
  unfold received
  cases dgram with
  | none => exact ⟨icmp, rfl, h⟩
  | some dgram =>
    dsimp only
    split
    · cases hseqno : icmp.seqnos.lookup dgram.seqno with
      | none => exact ⟨icmp, rfl, h⟩
      | some key =>
        rcases h.mapped dgram.seqno key hseqno with ⟨value, hitem, hsent⟩
        dsimp only
        rw [hitem]
        dsimp only
        by_cases hopen : key ∈ icmp.handled
        · rw [if_pos hopen]
          exact ⟨icmp, rfl, h⟩
        · rw [if_neg hopen]
          refine inv_update (inv_sent h hitem ?_ icmp.echoSeqno
            fun seqno other hother => .inl hother) key true moment
          by_cases hreceived : dgram.seqno ∈ value.recvList
          · rw [if_pos hreceived]
            exact ⟨rfl, rfl, id, fun _ hother => hother⟩
          · rw [if_neg hreceived]
            exact ⟨rfl, rfl, fun hcounted => WorkItem.counted_received hcounted hsent
              hreceived recvTime, fun _ hother => hother⟩
    · exact ⟨icmp, rfl, h⟩

/-!
## Items that are deleted
-/

theorem mem_erases {keys : List Int} {seqnos : Dict Int Text} {seqno : Int} {key : Text}
    (h : (keys.foldl (fun seqnos seqKey => seqnos.erase seqKey) seqnos).lookup seqno = some key) :
    seqno ∉ keys ∧ seqnos.lookup seqno = some key := by
  induction keys generalizing seqnos with
  | nil => exact ⟨not_mem_nil, h⟩
  | cons first rest ih =>
    rcases ih h with ⟨hrest, hkept⟩
    rcases Dict.lookup_erase_eq_some.mp hkept with ⟨hne, hheld⟩
    exact ⟨fun hmem => (mem_cons.mp hmem).elim hne hrest, hheld⟩

theorem unhandled_deleteItem (key : Text) :
    (icmp.deleteItem key).unhandled = icmp.unhandled.erase key := by
  ext other
  rw [mem_unhandled, Finset.mem_erase, mem_unhandled]
  show other ∈ icmp.work.erase key ∧ other ∉ icmp.handled.erase key <-> _
  rw [AList.mem_erase, Finset.mem_erase, not_and]
  constructor
  · intro h
    exact ⟨h.left.left, h.left.right, h.right h.left.left⟩
  · intro h
    exact ⟨⟨h.left, h.right.left⟩, fun _ => h.right.right⟩

theorem inv_deleteItem {icmp : IcmpProtocol} (h : icmp.Inv) {key : Text}
    (hhandled : key ∈ icmp.handled) : (icmp.deleteItem key).Inv := by
  rcases Dict.exists_lookup (h.handled key hhandled) with
    ⟨value, hitem⟩
  have hseqKeys : ((icmp.work.lookup key).map fun value => value.sentList.keys).getD [] =
      value.sentList.keys := by
    rw [hitem]
    rfl
  refine ⟨⟨h.book.once, h.book.answered, ?_, h.book.running⟩, ?_, ?_, ?_, ?_, h.member, h.members,
    ?_, h.groupsNamed, h.callsNamed⟩
  · have hnot : key ∉ icmp.unhandled := fun hmem => (mem_unhandled.mp hmem).right hhandled
    rw [unhandled_deleteItem, Finset.erase_eq_of_notMem hnot]
    exact h.book.inFlight
  · intro other hother
    rcases Finset.mem_erase.mp hother with ⟨hne, hheld⟩
    exact AList.mem_erase.mpr ⟨hne, h.handled other hheld⟩
  · intro seqno other hmapped
    rcases mem_erases hmapped with ⟨hnot, hmapped⟩
    rw [hseqKeys] at hnot
    rcases h.mapped seqno other hmapped with ⟨held, hheld, hsent⟩
    have hne : other ≠ key := by
      rintro rfl
      rw [hitem] at hheld
      cases hheld
      exact hnot (AList.mem_keys.mp hsent)
    exact ⟨held, Dict.lookup_erase_eq_some.mpr ⟨hne, hheld⟩, hsent⟩
  · intro other held hheld
    exact h.counted other held (Dict.lookup_erase_eq_some.mp hheld).right
  · intro other held hheld hopen
    rcases Dict.lookup_erase_eq_some.mp hheld with ⟨hne, hbefore⟩
    exact h.waiting other held hbefore fun hmem => hopen (Finset.mem_erase.mpr ⟨hne, hmem⟩)
  · intro other hother
    exact h.workNamed other (AList.mem_erase.mp hother).right

theorem inv_deleteItems {icmp : IcmpProtocol} (h : icmp.Inv) {keys : List Text}
    (hnodup : keys.Nodup) (hhandled : forall key, key ∈ keys -> key ∈ icmp.handled) :
    (keys.foldl deleteItem icmp).Inv := by
  induction keys generalizing icmp with
  | nil => exact h
  | cons key rest ih =>
    rcases nodup_cons.mp hnodup with ⟨hnot, hrest⟩
    apply ih (inv_deleteItem h (hhandled key mem_cons_self)) hrest
    intro other hother
    have hne : other ≠ key := by
      rintro rfl
      exact hnot hother
    exact Finset.mem_erase.mpr ⟨hne, hhandled other (mem_cons_of_mem key hother)⟩

/-- No item is overdue that is not handled. -/
def NoneLost (now : Rat) : Prop :=
  forall key, key ∈ icmp.overdueKeys now -> key ∈ icmp.handled

instance decidableNoneLost (icmp : IcmpProtocol) (now : Rat) :
    Decidable (icmp.NoneLost now) :=
  inferInstanceAs (Decidable (forall key, key ∈ _ -> key ∈ _))

theorem nodup_overdueKeys (now : Rat) :
    (icmp.overdueKeys now).Nodup := icmp.work.keys_nodup.filter _

theorem unhandled_deleteItems (keys : List Text) :
    (keys.foldl deleteItem icmp).unhandled = icmp.unhandled \ keys.toFinset ∧
      (keys.foldl deleteItem icmp).pingsInFlight = icmp.pingsInFlight := by
  induction keys generalizing icmp with
  | nil => exact ⟨(Finset.sdiff_empty).symm, rfl⟩
  | cons key rest ih =>
    rcases ih (icmp.deleteItem key) with ⟨hunhandled, hflight⟩
    refine ⟨?_, hflight⟩
    rw [foldl_cons, hunhandled, unhandled_deleteItem, toFinset_cons,
      Finset.erase_sdiff_comm, Finset.sdiff_insert]

theorem not_bookkept_of_lost {icmp : IcmpProtocol} (h : icmp.Bookkept) {now : Rat}
    (hlost : ¬ icmp.NoneLost now) : ¬ (icmp.checkTimeout now).Bookkept := by
  intro hafter
  rcases not_forall.mp hlost with ⟨key, hkey⟩
  rcases Classical.not_imp.mp hkey with ⟨hoverdue, hopen⟩
  have hmem : key ∈ icmp.unhandled :=
    mem_unhandled.mpr ⟨AList.mem_keys.mpr (mem_of_mem_filter hoverdue), hopen⟩
  rcases unhandled_deleteItems icmp (icmp.overdueKeys now) with ⟨hunhandled, hflight⟩
  have hfewer : (icmp.checkTimeout now).unhandled.card < icmp.unhandled.card := by
    rw [checkTimeout, hunhandled]
    apply Finset.card_lt_card
    apply Finset.ssubset_iff_subset_ne.mpr
    refine ⟨Finset.sdiff_subset, ?_⟩
    intro heq
    rw [<- heq] at hmem
    exact (Finset.mem_sdiff.mp hmem).right (mem_toFinset.mpr hoverdue)
  have hcount := hafter.inFlight
  rw [checkTimeout, hflight, h.inFlight] at hcount
  rw [checkTimeout] at hfewer
  omega

/-!
## New calls
-/

/-- A sequence string that is new and not generated. -/
def Fresh : Prop :=
  seqStr ∉ icmp.calls ∧ forall idx, seqStr ≠ groupKey idx

theorem groupKey_injective : Function.Injective groupKey := by
  intro idx other h
  have hformat := append_cancel_left h
  exact Int.ofNat_inj.mp (formatInt_injective hformat)

theorem not_named_of_fresh {icmp : IcmpProtocol} {seqStr : Text} (h : icmp.Fresh seqStr) :
    ¬ icmp.Named seqStr := by
  rintro (hcall | ⟨idx, _, heq⟩)
  · exact h.left hcall
  · exact h.right idx heq

theorem not_named_groupKey {icmp : IcmpProtocol} (h : icmp.Inv) (idx : Nat) :
    ¬ icmp.Named (groupKey (icmp.groupIdx + idx)) := by
  rintro (hcall | ⟨other, hlt, heq⟩)
  · exact h.callsNamed _ hcall _ rfl
  · have hsame := groupKey_injective heq
    omega

variable (targets : List (Option Text))

/-- The call is there, its items are not. -/
def withCall (num : Nat) : IcmpProtocol :=
  { icmp.addGroup seqStr targets with
    calls := icmp.calls.insert seqStr ⟨targets, num, icmp.seqList seqStr targets⟩ }

theorem seqList_nodup : (icmp.seqList seqStr targets).Nodup := by
  unfold seqList
  split
  · apply Nodup.map
    · intro idx other h
      exact Nat.add_left_cancel (groupKey_injective h)
    · exact nodup_range
  · exact nodup_singleton seqStr

theorem not_named_of_mem_seqList {icmp : IcmpProtocol} (h : icmp.Inv) {seqStr : Text}
    (hfresh : icmp.Fresh seqStr) {targets : List (Option Text)} {key : Text}
    (hkey : key ∈ icmp.seqList seqStr targets) : ¬ icmp.Named key := by
  unfold seqList at hkey
  split at hkey
  · rcases mem_map.mp hkey with ⟨idx, _, rfl⟩
    exact not_named_groupKey h idx
  · rw [mem_singleton.mp hkey]
    exact not_named_of_fresh hfresh

/-- The results of a group whose items are there. -/
def noResults (keys : List Text) : Dict Text (Option PingTuple) :=
  keys.foldl (fun results key => results.insert key none) ∅

theorem lookup_noResults {keys : List Text} {key : Text} {value : Option PingTuple}
    (h : (noResults keys).lookup key = some value) : value = none := by
  rw [noResults, lookup_foldl_insert] at h
  split at h
  · exact (Option.some.inj h).symm
  · rw [AList.lookup_empty] at h
    cases h

def groupsAfter (key : Text) : Option GroupEntry :=
  if ¬ 1 < targets.length then icmp.groups.lookup key
  else if key ∈ icmp.seqList seqStr targets then some (.memberOf seqStr)
  else if seqStr = key then some (.members (noResults (icmp.seqList seqStr targets)))
  else icmp.groups.lookup key

theorem withCall_spec (num : Nat) :
    exists groups groupIdx, icmp.withCall seqStr targets num = { icmp with
        groups := groups
        groupIdx := groupIdx
        calls := icmp.calls.insert seqStr ⟨targets, num, icmp.seqList seqStr targets⟩ } ∧
      icmp.groupIdx ≤ groupIdx ∧
      (1 < targets.length -> groupIdx = icmp.groupIdx + targets.length) ∧
      forall key, groups.lookup key = icmp.groupsAfter seqStr targets key := by
  by_cases hseveral : 1 < targets.length
  · refine ⟨(icmp.seqList seqStr targets).foldl
        (fun groups key => groups.insert key (.memberOf seqStr)) (icmp.groups.insert seqStr
          (.members (noResults (icmp.seqList seqStr targets)))),
      icmp.groupIdx + targets.length, ?_, Nat.le_add_right _ _, fun _ => rfl, ?_⟩
    · rw [withCall, addGroup, if_pos hseveral]
      rfl
    · intro key
      rw [groupsAfter, if_neg (fun hnot => hnot hseveral), lookup_foldl_insert,
        Dict.lookup_insert_if]
  · refine ⟨icmp.groups, icmp.groupIdx, ?_, Nat.le_refl _,
      fun h => absurd h hseveral, fun key => (if_pos hseveral).symm⟩
    rw [withCall, addGroup, if_neg hseveral]

section GroupsAfter

variable {icmp : IcmpProtocol} {seqStr : Text} {targets : List (Option Text)}

theorem groupsAfter_member (hseveral : 1 < targets.length) {key : Text}
    (hkey : key ∈ icmp.seqList seqStr targets) :
    icmp.groupsAfter seqStr targets key = some (.memberOf seqStr) := by
  rw [groupsAfter, if_neg (fun hnot => hnot hseveral), if_pos hkey]

theorem groupsAfter_call (hfresh : icmp.Fresh seqStr) (hseveral : 1 < targets.length) :
    icmp.groupsAfter seqStr targets seqStr =
      some (.members (noResults (icmp.seqList seqStr targets))) := by
  have hnot : seqStr ∉ icmp.seqList seqStr targets := by
    intro hmem
    rw [seqList, if_pos hseveral] at hmem
    rcases mem_map.mp hmem with ⟨idx, _, hkey⟩
    exact hfresh.right _ hkey.symm
  rw [groupsAfter, if_neg (fun hnot => hnot hseveral), if_neg hnot, if_pos rfl]

theorem groupsAfter_named (h : icmp.Inv) (hfresh : icmp.Fresh seqStr) {key : Text}
    (hkey : icmp.Named key) :
    icmp.groupsAfter seqStr targets key = icmp.groups.lookup key := by
  have hne : seqStr ≠ key := by
    rintro rfl
    exact not_named_of_fresh hfresh hkey
  rw [groupsAfter, if_neg fun hmem => not_named_of_mem_seqList h hfresh hmem hkey, if_neg hne,
    ite_self]

theorem groupsAfter_cases {key : Text} {entry : GroupEntry}
    (h : icmp.groupsAfter seqStr targets key = some entry) :
    1 < targets.length ∧ key ∈ icmp.seqList seqStr targets ∧ entry = .memberOf seqStr ∨
      1 < targets.length ∧ key = seqStr ∧
        entry = .members (noResults (icmp.seqList seqStr targets)) ∨
      icmp.groups.lookup key = some entry := by
  unfold groupsAfter at h
  split at h
  · exact .inr (.inr h)
  · rename_i hseveral
    have hlength := Classical.not_not.mp hseveral
    split at h
    · rename_i hkey
      exact .inl ⟨hlength, hkey, (Option.some.inj h).symm⟩
    · split at h
      · rename_i heq
        exact .inr (.inl ⟨hlength, heq.symm, (Option.some.inj h).symm⟩)
      · exact .inr (.inr h)

end GroupsAfter

theorem length_seqList (icmp : IcmpProtocol) (seqStr : Text) {targets : List (Option Text)}
    (hsome : 0 < targets.length) :
    (icmp.seqList seqStr targets).length = targets.length := by
  unfold seqList
  split
  · rw [length_map, length_range]
  · rename_i hsingle
    rw [length_singleton]
    omega

theorem inv_withCall {icmp : IcmpProtocol} (h : icmp.Inv) {seqStr : Text}
    (hfresh : icmp.Fresh seqStr) (targets : List (Option Text)) (num : Nat) :
    (icmp.withCall seqStr targets num).Inv := by
  let call : Call := ⟨targets, num, icmp.seqList seqStr targets⟩
  rcases withCall_spec icmp seqStr targets num with
    ⟨groups, groupIdx, heq, hidx, hidxs, hgroups⟩
  rw [heq]
  have hcalls : forall {name held}, icmp.calls.lookup name = some held ->
      (icmp.calls.insert seqStr call).lookup name = some held := by
    intro name held hheld
    have hne : name ≠ seqStr := by
      rintro rfl
      exact hfresh.left (Dict.mem_of_lookup hheld)
    rw [AList.lookup_insert_ne hne]
    exact hheld
  have hlookup : forall key, icmp.Named key ->
      groups.lookup key = icmp.groups.lookup key := fun key hkey =>
    (hgroups key).trans (groupsAfter_named h hfresh hkey)
  have hcallNamed : seqStr ∈ icmp.calls.insert seqStr call := (AList.mem_insert _).mpr (.inl rfl)
  have hnamed : forall key, icmp.Named key -> key ∈ icmp.calls.insert seqStr call ∨
      exists idx, idx < groupIdx ∧ key = groupKey idx := by
    rintro key (hcall | ⟨idx, hlt, hkey⟩)
    · exact .inl ((AList.mem_insert _).mpr (.inr hcall))
    · exact .inr ⟨idx, Nat.lt_of_lt_of_le hlt hidx, hkey⟩
  have hunanswered : icmp.Unanswered seqStr := by
    intro result hresult heq
    rcases h.book.answered result hresult with ⟨held, hheld, _⟩
    exact hfresh.left (heq ▸ Dict.mem_of_lookup hheld)
  refine ⟨⟨h.book.once, ?_, h.book.inFlight, h.book.running⟩, h.handled, h.mapped, h.counted, ?_,
    ?_, ?_, ?_, ?_, ?_⟩
  · intro result hresult
    rcases h.book.answered result hresult with ⟨held, hheld, hanswered⟩
    exact ⟨held, hcalls hheld, hanswered⟩
  · intro key value hitem hopen
    rcases h.waiting key value hitem hopen with ⟨name, held, hheld, hfits, hnum, hlink⟩
    have hkey := hlookup key (h.workNamed key (Dict.mem_of_lookup hitem))
    refine ⟨name, held, hcalls hheld, hfits, hnum, ?_⟩
    rcases hlink with ⟨hlength, hname, hnone, hopenStill⟩ | ⟨hlength, hmember⟩
    · exact .inl ⟨hlength, hname, hkey.trans hnone, hopenStill⟩
    · exact .inr ⟨hlength, hkey.trans hmember⟩
  · intro key name hmember
    have hentry := (hgroups key).symm.trans hmember
    rcases groupsAfter_cases hentry with ⟨hseveral, hkey, hsame⟩ | ⟨_, _, hsame⟩ | hbefore
    · cases hsame
      refine ⟨_, (hgroups seqStr).trans (groupsAfter_call hfresh hseveral), ?_⟩
      rw [noResults, lookup_foldl_insert, if_pos hkey]
    · cases hsame
    · rcases h.member key name hbefore with ⟨results, hresults, hmissing⟩
      exact ⟨results, (hlookup name (h.groupsNamed name (Dict.mem_of_lookup hresults))).trans hresults,
        hmissing⟩
  · intro name results hresults
    have hentry := (hgroups name).symm.trans hresults
    rcases groupsAfter_cases hentry with ⟨_, _, hsame⟩ | ⟨hseveral, rfl, hsame⟩ | hbefore
    · cases hsame
    · cases hsame
      refine ⟨hunanswered, call, AList.lookup_insert _, hseveral,
        icmp.length_seqList name (Nat.zero_lt_of_lt hseveral),
        perm_keys_foldl_insert (icmp.seqList_nodup name targets) none, ?_⟩
      intro key tuple htuple
      cases lookup_noResults htuple
    · rcases h.members name results hbefore with ⟨hopenStill, held, hheld, hcollects⟩
      exact ⟨hopenStill, held, hcalls hheld, hcollects⟩
  · intro key hkey
    exact hnamed key (h.workNamed key hkey)
  · intro key hkey
    rcases Dict.exists_lookup hkey with ⟨entry, hlookup⟩
    rcases groupsAfter_cases ((hgroups key).symm.trans hlookup) with
      ⟨hseveral, hmem, _⟩ | ⟨_, rfl, _⟩ | hbefore
    · rw [seqList, if_pos hseveral] at hmem
      rcases mem_map.mp hmem with ⟨idx, hrange, rfl⟩
      have hlt := mem_range.mp hrange
      have hlength := hidxs hseveral
      refine .inr ⟨icmp.groupIdx + idx, ?_, rfl⟩
      show icmp.groupIdx + idx < groupIdx
      omega
    · exact .inl hcallNamed
    · exact hnamed key (h.groupsNamed key (Dict.mem_of_lookup hbefore))
  · intro name hname
    rcases (AList.mem_insert _).mp hname with rfl | hheld
    · exact hfresh.right
    · exact h.callsNamed name hheld

theorem inv_addItem {icmp : IcmpProtocol} (h : icmp.Inv) {num : Nat} (timeout now : Rat)
    {entry : Text × Option Text} (hnew : entry.1 ∉ icmp.work) (hnamed : icmp.Named entry.1)
    (hwaiting : icmp.Waiting entry.1 (shown entry.2) num) :
    (addItem num timeout now icmp entry).Inv := by
  rcases entry with ⟨key, target⟩
  have hopen : key ∉ icmp.handled := fun hmem => hnew (h.handled key hmem)
  have hunhandled : (addItem num timeout now icmp (key, target)).unhandled =
      insert key icmp.unhandled := by
    ext other
    rw [mem_unhandled, Finset.mem_insert, mem_unhandled]
    show other ∈ icmp.work.insert key _ ∧ other ∉ icmp.handled <-> _
    rw [AList.mem_insert, or_and_right]
    exact or_congr_left (and_iff_left_of_imp fun heq => heq ▸ hopen)
  refine ⟨⟨h.book.once, h.book.answered, ?_, h.book.running⟩, ?_, ?_, ?_, ?_, h.member, h.members,
    ?_, h.groupsNamed, h.callsNamed⟩
  · have hnot : key ∉ icmp.unhandled := fun hmem => hnew (mem_unhandled.mp hmem).left
    rw [hunhandled, Finset.card_insert_of_notMem hnot]
    show icmp.pingsInFlight + 1 = _
    rw [h.book.inFlight]
    rfl
  · intro other hother
    exact (AList.mem_insert _).mpr (.inr (h.handled other hother))
  · intro seqno other hmapped
    rcases h.mapped seqno other hmapped with ⟨held, hheld, hsent⟩
    have hne : other ≠ key := by
      rintro rfl
      exact hnew (Dict.mem_of_lookup hheld)
    exact ⟨held, Dict.lookup_insert_eq_some.mpr (.inr ⟨hne.symm, hheld⟩), hsent⟩
  · intro other held hheld
    rcases Dict.lookup_insert_eq_some.mp hheld with ⟨_, rfl⟩ | ⟨_, hbefore⟩
    · exact WorkItem.counted_new target num timeout now
    · exact h.counted other held hbefore
  · intro other held hheld hother
    rcases Dict.lookup_insert_eq_some.mp hheld with ⟨rfl, rfl⟩ | ⟨_, hbefore⟩
    · rcases hwaiting with ⟨seqStr, call, hcall, hfits, hnum, hlink⟩
      refine ⟨seqStr, call, hcall, hfits, Nat.le_trans ?_ hnum, hlink⟩
      show (if target.getD [] = [] then 0 else num) ≤ num
      split
      · exact Nat.zero_le num
      · exact Nat.le_refl num
    · exact h.waiting other held hbefore hother
  · intro other hother
    rcases (AList.mem_insert _).mp hother with rfl | hheld
    · exact hnamed
    · exact h.workNamed other hheld

theorem inv_addItems {icmp : IcmpProtocol} (h : icmp.Inv) {num : Nat} (timeout now : Rat)
    {entries : List (Text × Option Text)} (hnodup : (entries.map Prod.fst).Nodup)
    (hentries : forall entry, entry ∈ entries -> entry.1 ∉ icmp.work ∧
      icmp.Named entry.1 ∧ icmp.Waiting entry.1 (shown entry.2) num) :
    (entries.foldl (addItem num timeout now) icmp).Inv := by
  induction entries generalizing icmp with
  | nil => exact h
  | cons entry rest ih =>
    rcases nodup_cons.mp hnodup with ⟨hnot, hrest⟩
    rcases hentries entry mem_cons_self with ⟨hnew, hnamed, hwaiting⟩
    apply ih (inv_addItem h timeout now hnew hnamed hwaiting) hrest
    intro other hother
    rcases hentries other (mem_cons_of_mem entry hother) with ⟨hotherNew, hlater⟩
    refine ⟨?_, hlater⟩
    intro hmem
    rcases (AList.mem_insert _).mp hmem with heq | hheld
    · exact hnot (mem_map.mpr ⟨other, hother, heq⟩)
    · exact hotherNew hheld

theorem waiting_withCall {icmp : IcmpProtocol} (h : icmp.Inv) {seqStr : Text}
    (hfresh : icmp.Fresh seqStr) {targets : List (Option Text)} (num : Nat)
    {entry : Text × Option Text} (hentry : entry ∈ (icmp.seqList seqStr targets).zip targets) :
    (icmp.withCall seqStr targets num).Waiting entry.1 (shown entry.2) num := by
  rcases withCall_spec icmp seqStr targets num with ⟨groups, groupIdx, heq, _, _, hgroups⟩
  rcases of_mem_zip hentry with ⟨hkey, htarget⟩
  rw [heq]
  refine ⟨seqStr, _, AList.lookup_insert _, ?_, Nat.le_refl num, ?_⟩
  · rw [Call.Targeted, zip_map_right]
    exact mem_map.mpr ⟨entry, hentry, rfl⟩
  · by_cases hseveral : 1 < targets.length
    · exact .inr ⟨hseveral, (hgroups entry.1).trans (groupsAfter_member hseveral hkey)⟩
    · have hpos := length_pos_of_mem htarget
      rw [seqList, if_neg hseveral] at hkey
      have hname : entry.1 = seqStr := mem_singleton.mp hkey
      have hnot : seqStr ∉ icmp.groups := fun hmem =>
        not_named_of_fresh hfresh (h.groupsNamed seqStr hmem)
      refine .inl ⟨by show targets.length = 1; omega, hname, ?_, ?_⟩
      · rw [hname]
        refine (hgroups seqStr).trans ?_
        rw [groupsAfter, if_pos hseveral]
        exact AList.lookup_eq_none.mpr hnot
      · rw [hname]
        intro result hresult heq
        rcases h.book.answered result hresult with ⟨held, hheld, _⟩
        exact hfresh.left (heq ▸ Dict.mem_of_lookup hheld)

theorem named_withCall (icmp : IcmpProtocol) (seqStr : Text) {targets : List (Option Text)}
    (num : Nat) {key : Text} (hkey : key ∈ icmp.seqList seqStr targets) :
    (icmp.withCall seqStr targets num).Named key := by
  rcases withCall_spec icmp seqStr targets num with ⟨groups, groupIdx, heq, _, hidxs, _⟩
  rw [heq]
  unfold seqList at hkey
  split at hkey
  · rename_i hseveral
    rcases mem_map.mp hkey with ⟨idx, hrange, rfl⟩
    have hlt := mem_range.mp hrange
    have hlength := hidxs hseveral
    refine .inr ⟨icmp.groupIdx + idx, ?_, rfl⟩
    show icmp.groupIdx + idx < groupIdx
    omega
  · exact .inl ((AList.mem_insert _).mpr (.inl (mem_singleton.mp hkey)))

theorem inv_addCall {icmp : IcmpProtocol} (h : icmp.Inv) {seqStr : Text}
    (hfresh : icmp.Fresh seqStr) (targets : List (Option Text)) (num : Nat)
    (timeout now : Rat) : (icmp.addCall seqStr targets num timeout now).Inv := by
  let keys := icmp.seqList seqStr targets
  have hinv := inv_withCall h hfresh targets num
  show ((keys.zip targets).foldl (addItem num timeout now)
    (icmp.withCall seqStr targets num)).Inv
  rcases Nat.eq_zero_or_pos targets.length with hnone | hsome
  · rw [length_eq_zero_iff.mp hnone, zip_nil_right]
    exact length_eq_zero_iff.mp hnone ▸ hinv
  · apply inv_addItems hinv timeout now
    · rw [map_fst_zip (icmp.length_seqList seqStr hsome).le]
      exact icmp.seqList_nodup seqStr targets
    · intro entry hentry
      have hkey : entry.1 ∈ keys := (of_mem_zip hentry).left
      refine ⟨?_, icmp.named_withCall seqStr num hkey,
        waiting_withCall h hfresh num hentry⟩
      rcases withCall_spec icmp seqStr targets num with ⟨_, _, heq, _⟩
      rw [heq]
      exact fun hmem => not_named_of_mem_seqList h hfresh hkey (h.workNamed entry.1 hmem)

theorem inv_ping {icmp : IcmpProtocol} (h : icmp.Inv) {seqStr : Text}
    (hfresh : icmp.Fresh seqStr) (targets : List (Option Text)) (num : Nat)
    (timeout now : Rat) (moments : Text -> Moment) :
    exists after, icmp.ping seqStr targets num timeout now moments = .ok after ∧ after.Inv :=
  inv_updates (inv_addCall h hfresh targets num timeout now) _ moments

/-!
## Runs
-/

def Distinct (icmp : IcmpProtocol) : PingEvent -> Prop
  | .ping seqStr _ _ _ _ _ => seqStr ∉ icmp.calls
  | _ => True

/-- The sequence string is not one that is generated for a target. -/
def OwnName (_ : IcmpProtocol) : PingEvent -> Prop
  | .ping seqStr _ _ _ _ _ => forall idx, seqStr ≠ groupKey idx
  | _ => True

/-- `_check_timeout` deletes no item that is not handled. -/
def Keeps (icmp : IcmpProtocol) : PingEvent -> Prop
  | .checkTimeout now => icmp.NoneLost now
  | _ => True

theorem inv_step {icmp : IcmpProtocol} {event : PingEvent} (h : icmp.Inv)
    (hallowed : icmp.Distinct event ∧ icmp.OwnName event) (hkeeps : icmp.Keeps event) :
    (icmp.step event).Inv := by
  have hact : exists after, icmp.act event = .ok after ∧ after.Inv := by
    cases event with
    | ping seqStr targets num timeout now moments =>
      exact inv_ping h hallowed targets num timeout now moments
    | update key moment => exact inv_update h key false moment
    | received dgram recvTime moment => exact inv_received h dgram recvTime moment
    | checkTimeout now =>
      exact ⟨_, rfl, inv_deleteItems h (icmp.nodup_overdueKeys now) hkeeps⟩
  rcases hact with ⟨after, hafter, hinv⟩
  rw [step, h.book.running, if_neg Bool.false_ne_true, hafter]
  exact hinv

theorem step_lost {icmp : IcmpProtocol} {event : PingEvent} (h : icmp.Inv)
    (hlost : ¬ icmp.Keeps event) : ¬ (icmp.step event).Bookkept := by
  cases event with
  | checkTimeout now =>
    rw [step, h.book.running, if_neg Bool.false_ne_true]
    exact not_bookkept_of_lost h.book hlost
  | ping seqStr targets num timeout now moments => exact absurd trivial hlost
  | update key moment => exact absurd trivial hlost
  | received dgram recvTime moment => exact absurd trivial hlost

/--
Each call has one result at most, with an entry for each target, and the pings in flight are those
that are not handled, in the runs in which `_check_timeout` finds none of them.
-/
theorem bookkept_runs_iff (pid : Nat) (events : List PingEvent)
    (hdistinct : Along step Distinct (initial pid) events)
    (hnames : Along step OwnName (initial pid) events) :
    (forall taken rest, events = taken ++ rest -> (run step (initial pid) taken).Bookkept) <->
      Along step Keeps (initial pid) events :=
  reached_iff_along_allowed step (fun _ _ hinv hallowed hkeeps => inv_step hinv hallowed hkeeps)
    (fun _ hinv => hinv.book) (fun _ _ hinv _ hlost => step_lost hinv hlost) (inv_initial pid)
    (along_and step hdistinct hnames)

theorem ne_groupKey {first : Char} {rest : Text} (h : first ≠ 'g') (idx : Nat) :
    first :: rest ≠ groupKey idx := by
  intro heq
  exact h (cons.inj heq).left

/-- Two targets that are not resolved. -/
def unresolvedPing : PingEvent :=
  .ping "ping_1".toList [none, none] 3 5 0 fun _ => ⟨0, .ok 0⟩

/-- They are answered at once, and deleted after a minute. -/
theorem unresolved_bookkept : (run step (initial 7) [unresolvedPing, .checkTimeout 61]).Bookkept :=
  (bookkept_runs_iff 7 [unresolvedPing, .checkTimeout 61] ⟨AList.notMem_empty _, trivial, trivial⟩
    ⟨ne_groupKey (by decide), trivial, trivial⟩).mpr
    ⟨trivial, by unfold Keeps; decide +kernel, trivial⟩ _ [] (append_nil _).symm

/-- A ping that may take 100 seconds. -/
def longPing : List PingEvent :=
  [.ping "ping_1".toList [some "10.0.0.1".toList] 2 100 0 fun _ => ⟨0, .ok 0⟩,
    .update "ping_1".toList ⟨101 / 1000, .ok (101 / 1000)⟩]

/-- It is deleted after 61 seconds, and counted for ever. -/
theorem long_ping_lost :
    Along step Distinct (initial 7) (longPing ++ [.checkTimeout 61]) ∧
      ¬ (run step (initial 7) (longPing ++ [.checkTimeout 61])).Bookkept := by
  refine ⟨⟨AList.notMem_empty _, trivial, trivial, trivial⟩, ?_⟩
  intro h
  exact absurd h.inFlight (by decide +kernel)

end IcmpProtocol

end Icsw.HmDirect
