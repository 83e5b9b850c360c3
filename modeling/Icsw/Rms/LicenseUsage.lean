import Icsw.Foundation.Dict
import Icsw.Foundation.Python
import Mathlib.Algebra.BigOperators.Group.List.Basic
import Mathlib.Tactic.Ring
import Mathlib.Tactic.Linarith

/-!
# Usage of external licences

A licence server reports how many licences are in use and by which clients, the batch system how
many its jobs have requested.  Each counter of a configured licence is a function of the reports
for it and of the requests.  The number in use is that of the last report, where the other counters
are summed over all reports.
-/

namespace Icsw.Rms

open Foundation List

/-- The arithmetic that an `eval_str` is written in. -/
inductive Arithmetic where
  | literal (value : Int)
  | name (key : Text)
  | neg (arg : Arithmetic)
  | add (left right : Arithmetic)
  | sub (left right : Arithmetic)
  | mul (left right : Arithmetic)
  | div (left right : Arithmetic)
  | mod (left right : Arithmetic)
  | max (left right : Arithmetic)
  | min (left right : Arithmetic)

/-- `eval(self.__eval_str, _glob)` -/
def Arithmetic.eval (glob : Text -> Option Int) : Arithmetic -> Except PyError Int
  | .literal value => .ok value
  | .name key =>
    match glob key with
    | some value => .ok value
    | none => .error .nameError
  | .neg arg => do return -(← arg.eval glob)
  | .add left right => do return (← left.eval glob) + (← right.eval glob)
  | .sub left right => do return (← left.eval glob) - (← right.eval glob)
  | .mul left right => do return (← left.eval glob) * (← right.eval glob)
  | .div left right => do
      let dividend ← left.eval glob
      let divisor ← right.eval glob
      if divisor = 0 then throw .zeroDivisionError else return Int.fdiv dividend divisor
  | .mod left right => do
      let dividend ← left.eval glob
      let divisor ← right.eval glob
      if divisor = 0 then throw .zeroDivisionError else return Int.fmod dividend divisor
  | .max left right => do return Max.max (← left.eval glob) (← right.eval glob)
  | .min left right => do return Min.min (← left.eval glob) (← right.eval glob)

inductive LicenseType where
  | simple (matchStr : Text)
  | complex (evalStr : Arithmetic)

def LicenseType.isSimple : LicenseType -> Bool
  | .simple _ => true
  | .complex _ => false

structure SgeLicense where
  licenseType : LicenseType
  isUsed : Bool
  total : Int
  reserved : Int
  limit : Int
  used : Int
  sgeUsed : Int
  sgeUsedRequested : Int
  sgeUsedIssued : Int
  externalUsed : Int
  /-- The attribute that `calculate_usage` sets and nothing reads. -/
  external : Option Int

structure Usage where
  clientShort : Text
  num : Int

/-- A `license` element of the server result. -/
structure LicenseReport where
  name : Text
  issued : Int
  used : Int
  reserved : Int
  usages : List Usage

abbrev LicenseDict := Dict Text SgeLicense

-- `reMatch pattern text` says whether the regular expression matches the text.
variable (reMatch : Text -> Text -> Bool)

def SgeLicense.reset (license : SgeLicense) : SgeLicense :=
  { license with
    used := 0
    sgeUsed := 0
    sgeUsedRequested := 0
    sgeUsedIssued := 0
    externalUsed := 0 }

def SgeLicense.update (license : SgeLicense) (other : LicenseReport) : SgeLicense :=
  { license with
    total := other.issued
    reserved := other.reserved }

def numSgeSpecific (matchStr : Text) (licXml : LicenseReport) : Int :=
  if matchStr = [] then 0
  else ((licXml.usages.filter fun usage => reMatch matchStr usage.clientShort).map Usage.num).sum

def LicenseReport.inUse (report : LicenseReport) : Int := report.used - report.reserved

def reported (license : SgeLicense) (curLic : LicenseReport) : SgeLicense :=
  let updated := { license.update curLic with used := curLic.inUse }
  match license.licenseType with
  | .simple matchStr =>
    let numSge := numSgeSpecific reMatch matchStr curLic
    { updated with
      sgeUsedIssued := updated.sgeUsedIssued + numSge
      externalUsed := updated.externalUsed + (updated.used - numSge) }
  | .complex _ => { updated with externalUsed := updated.externalUsed + updated.used }

def readReport (licDict : LicenseDict) (curLic : LicenseReport) : LicenseDict :=
  match licDict.lookup curLic.name with
  | some actLic =>
    if actLic.isUsed then licDict.insert curLic.name (reported reMatch actLic curLic) else licDict
  | none => licDict

def updateUsage (licDict : LicenseDict) (srvXml : List LicenseReport) : LicenseDict :=
  srvXml.foldl (readReport reMatch) (licDict.comprehend fun _ license => some license.reset)

def setSgeUsed (licDict : LicenseDict) (usedDict : Text -> Option Int) : LicenseDict :=
  licDict.comprehend fun key license =>
    match usedDict key with
    | some requested =>
      some { license with sgeUsedRequested := license.sgeUsedRequested + requested }
    | none => some license

/-- The values of the simple licences that an expression is evaluated over. -/
def glob (licDict : LicenseDict) (attr : SgeLicense -> Int) (key : Text) : Option Int :=
  match licDict.lookup key with
  | some license => if license.licenseType.isSimple then some (attr license) else none
  | none => none

def evalOrZero (evalStr : Arithmetic) (values : Text -> Option Int) : Int :=
  match evalStr.eval values with
  | .ok result => result
  | .error _ => 0

def SgeLicense.handleComplex (license : SgeLicense) (licDict : LicenseDict) : SgeLicense :=
  match license.licenseType with
  | .simple _ => license
  | .complex evalStr =>
    { license with
      total := evalOrZero evalStr (glob licDict SgeLicense.total)
      used := evalOrZero evalStr (glob licDict SgeLicense.used)
      limit := evalOrZero evalStr (glob licDict SgeLicense.limit)
      sgeUsedRequested := evalOrZero evalStr (glob licDict SgeLicense.sgeUsedRequested)
      sgeUsedIssued := evalOrZero evalStr (glob licDict SgeLicense.sgeUsedIssued) }

variable (actualLicenses : LicenseDict)

def handleComplexKey (compKey : Text) : LicenseDict :=
  match actualLicenses.lookup compKey with
  | some license => actualLicenses.insert compKey (license.handleComplex actualLicenses)
  | none => actualLicenses

def isComplexKey (key : Text) : Bool :=
  match actualLicenses.lookup key with
  | some license => license.isUsed && !license.licenseType.isSimple
  | none => false

/-- The keys are sorted in the source, which matters for the log lines only. -/
def handleComplexLicenses : LicenseDict :=
  (actualLicenses.keys.filter (isComplexKey actualLicenses)).foldl handleComplexKey actualLicenses

def SgeLicense.calculateUsage (actLic : SgeLicense) : SgeLicense :=
  if actLic.isUsed then
    let sgeUsed := max actLic.sgeUsedIssued actLic.sgeUsedRequested
    match actLic.licenseType with
    | .simple _ => { actLic with sgeUsed := sgeUsed }
    | .complex _ => { actLic with sgeUsed := sgeUsed, external := some (actLic.used - sgeUsed) }
  else actLic

def calculateUsage : LicenseDict :=
  actualLicenses.comprehend fun _ actLic => some actLic.calculateUsage

def feedXmlResult (licenseDict : LicenseDict) (srvResult : List LicenseReport)
    (sgeUsed : Text -> Option Int) : LicenseDict :=
  calculateUsage (handleComplexLicenses
    (setSgeUsed (updateUsage reMatch licenseDict srvResult) sgeUsed))

variable (reMatch : Text -> Text -> Bool) (srvResult : List LicenseReport)
  (sgeUsed : Text -> Option Int)

variable (name : Text)

def reportsOf : List LicenseReport :=
  srvResult.filter fun report => report.name = name

def lastInUse : Int :=
  ((reportsOf srvResult name).getLast?.map LicenseReport.inUse).getD 0

def totalInUse : Int := ((reportsOf srvResult name).map LicenseReport.inUse).sum

def issuedBy (matchStr name : Text) : Int :=
  ((reportsOf srvResult name).map (numSgeSpecific reMatch matchStr)).sum

def totalOf (license : SgeLicense) : Int :=
  if license.isUsed then
    ((reportsOf srvResult name).getLast?.map LicenseReport.issued).getD license.total
  else license.total

def reservedOf (license : SgeLicense) : Int :=
  if license.isUsed then
    ((reportsOf srvResult name).getLast?.map LicenseReport.reserved).getD license.reserved
  else license.reserved

def usedOf (license : SgeLicense) : Int :=
  if license.isUsed then lastInUse srvResult name else 0

def issuedOf (license : SgeLicense) : Int :=
  if license.isUsed then
    match license.licenseType with
    | .simple matchStr => issuedBy reMatch srvResult matchStr name
    | .complex _ => 0
  else 0

def requestedOf (_ : SgeLicense) : Int := (sgeUsed name).getD 0

def externalOf (license : SgeLicense) : Int :=
  if license.isUsed then totalInUse srvResult name - issuedOf reMatch srvResult name license else 0

/-- A licence after the reports and the requests. -/
def gathered (license : SgeLicense) : SgeLicense :=
  { license with
    total := totalOf srvResult name license
    reserved := reservedOf srvResult name license
    used := usedOf srvResult name license
    sgeUsed := 0
    sgeUsedRequested := requestedOf sgeUsed name license
    sgeUsedIssued := issuedOf reMatch srvResult name license
    externalUsed := externalOf reMatch srvResult name license }

section Reports

variable {reMatch}

def ownIssued (reMatch : Text -> Text -> Bool) : LicenseType -> LicenseReport -> Int
  | .simple matchStr => numSgeSpecific reMatch matchStr
  | .complex _ => fun _ => 0

theorem foldl_reported (reports : List LicenseReport) (license : SgeLicense) :
    reports.foldl (reported reMatch) license =
      { license with
        total := (reports.getLast?.map LicenseReport.issued).getD license.total
        reserved := (reports.getLast?.map LicenseReport.reserved).getD license.reserved
        used := (reports.getLast?.map LicenseReport.inUse).getD license.used
        sgeUsedIssued :=
          license.sgeUsedIssued + (reports.map (ownIssued reMatch license.licenseType)).sum
        externalUsed :=
          license.externalUsed + ((reports.map LicenseReport.inUse).sum -
            (reports.map (ownIssued reMatch license.licenseType)).sum) } := by
  induction reports generalizing license with
  | nil => simp
  | cons report rest ih =>
    have hreported : reported reMatch license report =
        { license with
          total := report.issued
          reserved := report.reserved
          used := report.inUse
          sgeUsedIssued := license.sgeUsedIssued + ownIssued reMatch license.licenseType report
          externalUsed := license.externalUsed +
            (report.inUse - ownIssued reMatch license.licenseType report) } := by
      rcases license with ⟨licenseType⟩
      cases licenseType with
      | simple matchStr => rfl
      | complex evalStr => simp [reported, ownIssued, SgeLicense.update]
    rw [foldl_cons, hreported, ih, getLast?_cons]
    simp only [map_cons, sum_cons, Option.map_some, Option.getD_some]
    congr 1
    · cases rest.getLast? <;> rfl
    · cases rest.getLast? <;> rfl
    · cases rest.getLast? <;> rfl
    · ring
    · ring

theorem isUsed_reported (license : SgeLicense) (report : LicenseReport) :
    (reported reMatch license report).isUsed = license.isUsed := by
  unfold reported
  split <;> rfl

theorem lookup_foldl_readReport (licDict : LicenseDict) (name : Text) :
    (srvResult.foldl (readReport reMatch) licDict).lookup name =
      (licDict.lookup name).map fun license =>
        if license.isUsed then (reportsOf srvResult name).foldl (reported reMatch) license
        else license := by
  induction srvResult generalizing licDict with
  | nil =>
    cases hname : licDict.lookup name with
    | none => rw [foldl_nil, hname]; rfl
    | some license => rw [foldl_nil, hname]; simp [reportsOf]
  | cons report rest ih =>
    rw [foldl_cons, ih]
    by_cases hreport : report.name = name
    · have hreports : reportsOf (report :: rest) name = report :: reportsOf rest name :=
        filter_cons_of_pos (by simpa using hreport)
      rw [hreports, readReport, hreport]
      cases hname : licDict.lookup name with
      | none =>
        simp only [hname]
        rfl
      | some license =>
        cases hused : license.isUsed with
        | false => simp [hname, hused]
        | true =>
          simp only [if_true, Dict.lookup_insert_if, Option.map_some, isUsed_reported,
            hused, foldl_cons]
    · have hreports : reportsOf (report :: rest) name = reportsOf rest name :=
        filter_cons_of_neg (by simpa using hreport)
      have hlookup : (readReport reMatch licDict report).lookup name = licDict.lookup name := by
        unfold readReport
        split
        · split
          · rw [Dict.lookup_insert_if, if_neg hreport]
          · rfl
        · rfl
      rw [hreports, hlookup]

end Reports

def gatheredDict (licenseDict : LicenseDict) : LicenseDict :=
  setSgeUsed (updateUsage reMatch licenseDict srvResult) sgeUsed

theorem foldl_reported_reset (name : Text) (license : SgeLicense) :
    (if license.reset.isUsed then
        (reportsOf srvResult name).foldl (reported reMatch) license.reset
      else license.reset) =
      { gathered reMatch srvResult sgeUsed name license with sgeUsedRequested := 0 } := by
  have hreset : license.reset.isUsed = license.isUsed := rfl
  unfold gathered totalOf reservedOf usedOf externalOf issuedOf lastInUse totalInUse issuedBy
  rw [hreset]
  cases hused : license.isUsed with
  | false =>
    cases license
    cases hused
    rfl
  | true =>
    rw [if_pos rfl, foldl_reported]
    rcases license with ⟨licenseType⟩
    cases licenseType with
    | simple matchStr | complex evalStr => simpa [SgeLicense.reset, ownIssued] using hused

theorem lookup_gatheredDict (licenseDict : LicenseDict) (name : Text) :
    (gatheredDict reMatch srvResult sgeUsed licenseDict).lookup name =
      (licenseDict.lookup name).map (gathered reMatch srvResult sgeUsed name) := by
  rw [gatheredDict, setSgeUsed, Dict.lookup_comprehend, updateUsage, lookup_foldl_readReport,
    Dict.lookup_comprehend]
  cases hname : licenseDict.lookup name with
  | none => rfl
  | some license =>
    simp only [Option.bind_some, Option.map_some,
      foldl_reported_reset reMatch srvResult sgeUsed name license]
    unfold gathered requestedOf
    cases sgeUsed name with
    | none => rfl
    | some requested => simp

def simpleValues (licenseDict : LicenseDict) (value : Text -> SgeLicense -> Int) (key : Text) :
    Option Int :=
  match licenseDict.lookup key with
  | some license => if license.licenseType.isSimple then some (value key license) else none
  | none => none

section Complex

variable {licDict : LicenseDict}

theorem glob_handleComplexKey {compKey : Text} (h : isComplexKey licDict compKey = true)
    (attr : SgeLicense -> Int) : glob (handleComplexKey licDict compKey) attr = glob licDict attr := by
  unfold isComplexKey at h
  cases hkey : licDict.lookup compKey with
  | none => rw [hkey] at h; cases h
  | some license =>
    rw [hkey] at h
    have htype : license.licenseType.isSimple = false := by
      simpa using (Bool.and_eq_true_iff.mp h).right
    have hhandled : (license.handleComplex licDict).licenseType = license.licenseType := by
      unfold SgeLicense.handleComplex
      split <;> rfl
    funext key
    unfold glob handleComplexKey
    simp only [hkey, Dict.lookup_insert_if]
    by_cases heq : compKey = key
    · subst heq
      simp [hkey, hhandled, htype]
    · simp [heq]

theorem handleComplex_congr {other : LicenseDict} (h : glob licDict = glob other)
    (license : SgeLicense) : license.handleComplex licDict = license.handleComplex other := by
  unfold SgeLicense.handleComplex
  rw [h]

theorem handleComplex_complex {license : SgeLicense} {evalStr : Arithmetic}
    (h : license.licenseType = .complex evalStr) (licDict : LicenseDict) :
    license.handleComplex licDict =
      { license with
        total := evalOrZero evalStr (glob licDict SgeLicense.total)
        used := evalOrZero evalStr (glob licDict SgeLicense.used)
        limit := evalOrZero evalStr (glob licDict SgeLicense.limit)
        sgeUsedRequested := evalOrZero evalStr (glob licDict SgeLicense.sgeUsedRequested)
        sgeUsedIssued := evalOrZero evalStr (glob licDict SgeLicense.sgeUsedIssued) } := by
  cases license
  cases h
  rfl

theorem lookup_foldl_handleComplexKey {keys : List Text} (hnodup : keys.Nodup)
    (hcomplex : forall key, key ∈ keys -> isComplexKey licDict key = true) (name : Text) :
    (keys.foldl handleComplexKey licDict).lookup name =
      (licDict.lookup name).map fun license =>
        if name ∈ keys then license.handleComplex licDict else license := by
  induction keys generalizing licDict with
  | nil => simp
  | cons first rest ih =>
    have hfirst := hcomplex first mem_cons_self
    have hglob : glob (handleComplexKey licDict first) = glob licDict := by
      funext attr
      exact glob_handleComplexKey hfirst attr
    have hlookup : forall key, (handleComplexKey licDict first).lookup key =
        (licDict.lookup key).map fun license =>
          if key = first then license.handleComplex licDict else license := by
      intro key
      unfold handleComplexKey
      cases hkey : licDict.lookup first with
      | none =>
        unfold isComplexKey at hfirst
        rw [hkey] at hfirst
        cases hfirst
      | some license =>
        simp only [Dict.lookup_insert_if]
        by_cases heq : first = key
        · rw [if_pos heq, ← heq, hkey]
          simp
        · have hne : key ≠ first := fun h => heq h.symm
          rw [if_neg heq]
          simp [hne]
    have hrest : forall key, key ∈ rest ->
        isComplexKey (handleComplexKey licDict first) key = true := by
      intro key hkey
      have hne : key ≠ first := fun heq => (nodup_cons.mp hnodup).left (heq ▸ hkey)
      have hold := hcomplex key (mem_cons_of_mem first hkey)
      unfold isComplexKey at hold ⊢
      rw [hlookup]
      simpa [hne] using hold
    rw [foldl_cons, ih (nodup_cons.mp hnodup).right hrest, hlookup, Option.map_map]
    congr 1
    funext license
    by_cases hname : name = first
    · subst hname
      simp [(nodup_cons.mp hnodup).left]
    · by_cases hmem : name ∈ rest
      · simp [hname, hmem, handleComplex_congr hglob]
      · simp [hname, hmem]

theorem lookup_handleComplexLicenses (name : Text) :
    (handleComplexLicenses licDict).lookup name =
      (licDict.lookup name).map fun license =>
        if license.isUsed && !license.licenseType.isSimple then license.handleComplex licDict
        else license := by
  rw [handleComplexLicenses, lookup_foldl_handleComplexKey (licDict.keys_nodup.filter _)
    fun key hkey => (mem_filter.mp hkey).right]
  cases hname : licDict.lookup name with
  | none => rfl
  | some license =>
    have hkeys : name ∈ licDict.keys := AList.mem_keys.mp (Dict.mem_of_lookup hname)
    have hfilter : name ∈ licDict.keys.filter (isComplexKey licDict) <->
        (license.isUsed && !license.licenseType.isSimple) = true := by
      rw [mem_filter]
      unfold isComplexKey
      rw [hname]
      exact ⟨fun h => h.right, fun h => ⟨hkeys, h⟩⟩
    simp only [Option.map_some, hfilter]

end Complex

/-- A licence after a server result. -/
def settledLicense (licenseDict : LicenseDict) (name : Text) (license : SgeLicense) : SgeLicense :=
  let counted := gathered reMatch srvResult sgeUsed name license
  if license.isUsed then
    match license.licenseType with
    | .simple _ =>
      { counted with sgeUsed := max counted.sgeUsedIssued counted.sgeUsedRequested }
    | .complex evalStr =>
      let value := fun attr => evalOrZero evalStr (simpleValues licenseDict attr)
      let used := value (usedOf srvResult)
      let requested := value (requestedOf sgeUsed)
      let issued := value (issuedOf reMatch srvResult)
      { counted with
        total := value (totalOf srvResult)
        used := used
        limit := value fun _ simple => simple.limit
        sgeUsed := max issued requested
        sgeUsedRequested := requested
        sgeUsedIssued := issued
        external := some (used - max issued requested) }
  else counted

theorem glob_gatheredDict (licenseDict : LicenseDict) (attr : SgeLicense -> Int) :
    glob (gatheredDict reMatch srvResult sgeUsed licenseDict) attr =
      simpleValues licenseDict fun name license =>
        attr (gathered reMatch srvResult sgeUsed name license) := by
  funext key
  unfold glob simpleValues
  rw [lookup_gatheredDict]
  cases licenseDict.lookup key with
  | none => rfl
  | some license => rfl

theorem lookup_feedXmlResult (licenseDict : LicenseDict) (name : Text) :
    (feedXmlResult reMatch licenseDict srvResult sgeUsed).lookup name =
      (licenseDict.lookup name).map
        (settledLicense reMatch srvResult sgeUsed licenseDict name) := by
  rw [feedXmlResult, calculateUsage, Dict.lookup_comprehend, lookup_handleComplexLicenses,
    ← gatheredDict, lookup_gatheredDict]
  cases licenseDict.lookup name with
  | none => rfl
  | some license =>
    have htype : (gathered reMatch srvResult sgeUsed name license).licenseType =
        license.licenseType := rfl
    have hisUsed : (gathered reMatch srvResult sgeUsed name license).isUsed =
        license.isUsed := rfl
    simp only [Option.map_some, Option.bind_some, htype, hisUsed]
    congr 1
    unfold settledLicense
    cases hused : license.isUsed with
    | false =>
      rw [Bool.false_and, if_neg Bool.false_ne_true, if_neg Bool.false_ne_true,
        SgeLicense.calculateUsage, hisUsed, hused, if_neg Bool.false_ne_true]
    | true =>
      cases hkind : license.licenseType with
      | simple matchStr =>
        rw [if_neg (by simp [LicenseType.isSimple]), if_pos rfl, SgeLicense.calculateUsage, hisUsed, hused,
          if_pos rfl, htype, hkind]
      | complex evalStr =>
        have hhandled : (gathered reMatch srvResult sgeUsed name license).handleComplex
            (gatheredDict reMatch srvResult sgeUsed licenseDict) =
            { gathered reMatch srvResult sgeUsed name license with
              total := evalOrZero evalStr (simpleValues licenseDict (totalOf srvResult))
              used := evalOrZero evalStr (simpleValues licenseDict (usedOf srvResult))
              limit := evalOrZero evalStr (simpleValues licenseDict fun _ simple =>
                simple.limit)
              sgeUsedRequested :=
                evalOrZero evalStr (simpleValues licenseDict (requestedOf sgeUsed))
              sgeUsedIssued := evalOrZero evalStr
                (simpleValues licenseDict (issuedOf reMatch srvResult)) } := by
          rw [handleComplex_complex (htype.trans hkind)]
          simp only [glob_gatheredDict]
          rfl
        rw [if_pos (by simp [LicenseType.isSimple]), if_pos rfl, hhandled]
        simp only [SgeLicense.calculateUsage, hisUsed, hused, if_true, htype, hkind]

section

variable (licenseDict : LicenseDict)
include licenseDict

theorem settledLicense_settledLicense (name : Text) (license : SgeLicense) :
    settledLicense reMatch srvResult sgeUsed licenseDict name
        (settledLicense reMatch srvResult sgeUsed licenseDict name license) =
      settledLicense reMatch srvResult sgeUsed licenseDict name license := by
  rcases license with ⟨licenseType, isUsed⟩
  unfold settledLicense gathered totalOf reservedOf usedOf externalOf issuedOf requestedOf
  cases isUsed with
  | false => cases licenseType <;> rfl
  | true => cases licenseType <;> cases (reportsOf srvResult name).getLast? <;> rfl

theorem settledLicense_type (name : Text) (license : SgeLicense) :
    (settledLicense reMatch srvResult sgeUsed licenseDict name license).licenseType =
      license.licenseType := by
  unfold settledLicense
  split
  · split <;> rfl
  · rfl

theorem settledLicense_isUsed (name : Text) (license : SgeLicense) :
    (settledLicense reMatch srvResult sgeUsed licenseDict name license).isUsed =
      license.isUsed := by
  unfold settledLicense
  split
  · split <;> rfl
  · rfl

theorem settledLicense_simple (name : Text) {license : SgeLicense}
    (hsimple : license.licenseType.isSimple = true) :
    (settledLicense reMatch srvResult sgeUsed licenseDict name license).limit = license.limit ∧
      totalOf srvResult name
          (settledLicense reMatch srvResult sgeUsed licenseDict name license) =
        totalOf srvResult name license := by
  rcases license with ⟨licenseType, isUsed⟩
  cases licenseType with
  | complex evalStr => cases hsimple
  | simple matchStr =>
    cases isUsed with
    | false => exact ⟨rfl, rfl⟩
    | true =>
      refine ⟨rfl, ?_⟩
      unfold settledLicense gathered totalOf
      cases (reportsOf srvResult name).getLast? <;> rfl

theorem simpleValues_feedXmlResult {value : Text -> SgeLicense -> Int}
    (hvalue : forall key license, license.licenseType.isSimple = true ->
      value key (settledLicense reMatch srvResult sgeUsed licenseDict key license) =
        value key license) :
    simpleValues (feedXmlResult reMatch licenseDict srvResult sgeUsed) value =
      simpleValues licenseDict value := by
  funext key
  unfold simpleValues
  rw [lookup_feedXmlResult]
  cases licenseDict.lookup key with
  | none => rfl
  | some license =>
    simp only [Option.map_some, settledLicense_type]
    by_cases hsimple : license.licenseType.isSimple = true
    · rw [if_pos hsimple, if_pos hsimple, hvalue key license hsimple]
    · rw [if_neg hsimple, if_neg hsimple]

end

theorem settledLicense_congr {licenseDict next : LicenseDict}
    (htotal : simpleValues next (totalOf srvResult) = simpleValues licenseDict (totalOf srvResult))
    (hused : simpleValues next (usedOf srvResult) = simpleValues licenseDict (usedOf srvResult))
    (hlimit : (simpleValues next fun _ simple => simple.limit) =
      simpleValues licenseDict fun _ simple => simple.limit)
    (hrequested : simpleValues next (requestedOf sgeUsed) =
      simpleValues licenseDict (requestedOf sgeUsed))
    (hissued : simpleValues next (issuedOf reMatch srvResult) =
      simpleValues licenseDict (issuedOf reMatch srvResult)) :
    settledLicense reMatch srvResult sgeUsed next =
      settledLicense reMatch srvResult sgeUsed licenseDict := by
  funext name license
  unfold settledLicense
  simp only [htotal, hused, hlimit, hrequested, hissued]

theorem feedXmlResult_repeats (licenseDict : LicenseDict) (name : Text) :
    (feedXmlResult reMatch (feedXmlResult reMatch licenseDict srvResult sgeUsed) srvResult
        sgeUsed).lookup name =
      (feedXmlResult reMatch licenseDict srvResult sgeUsed).lookup name := by
  have hcongr : settledLicense reMatch srvResult sgeUsed
        (feedXmlResult reMatch licenseDict srvResult sgeUsed) =
      settledLicense reMatch srvResult sgeUsed licenseDict := by
    apply settledLicense_congr
    · apply simpleValues_feedXmlResult
      intro key license hsimple
      exact (settledLicense_simple reMatch srvResult sgeUsed licenseDict key hsimple).right
    · apply simpleValues_feedXmlResult
      intro key license _
      rw [usedOf, settledLicense_isUsed, usedOf]
    · apply simpleValues_feedXmlResult
      intro key license hsimple
      exact (settledLicense_simple reMatch srvResult sgeUsed licenseDict key hsimple).left
    · apply simpleValues_feedXmlResult
      intro key license _
      rfl
    · apply simpleValues_feedXmlResult
      intro key license _
      rw [issuedOf, settledLicense_isUsed, settledLicense_type, issuedOf]
  rw [lookup_feedXmlResult, hcongr, lookup_feedXmlResult, Option.map_map]
  congr 1
  funext license
  exact settledLicense_settledLicense reMatch srvResult sgeUsed licenseDict name license

/-- The counters of the used licences add up. -/
structure Balanced (result : LicenseDict) : Prop where
  simple : forall {name license}, result.lookup name = some license -> license.isUsed = true ->
    license.licenseType.isSimple = true ->
      license.used = license.sgeUsedIssued + license.externalUsed ∧
        license.used = totalInUse srvResult name
  complex : forall {name license}, result.lookup name = some license -> license.isUsed = true ->
    license.licenseType.isSimple = false ->
      license.externalUsed = license.used - license.sgeUsed

/-- The counters balance, and the same result again does not change them. -/
def AccountsBalance (licenseDict : LicenseDict) : Prop :=
  Balanced srvResult (feedXmlResult reMatch licenseDict srvResult sgeUsed) ∧
    forall name,
      (feedXmlResult reMatch (feedXmlResult reMatch licenseDict srvResult sgeUsed) srvResult
          sgeUsed).lookup name =
        (feedXmlResult reMatch licenseDict srvResult sgeUsed).lookup name

/-- What an expression gives for the numbers in use beyond those of the batch system. -/
def complexExternal (licenseDict : LicenseDict) (evalStr : Arithmetic) : Int :=
  evalOrZero evalStr (simpleValues licenseDict (usedOf srvResult)) -
    max (evalOrZero evalStr (simpleValues licenseDict (issuedOf reMatch srvResult)))
      (evalOrZero evalStr (simpleValues licenseDict (requestedOf sgeUsed)))

/--
For simple licences, the reports before the last one sum to nothing.  What is reported for complex
ones is what their expression leaves to others.
-/
structure CountedOnce (licenseDict : LicenseDict) : Prop where
  simple : forall {name license}, licenseDict.lookup name = some license ->
    license.isUsed = true -> license.licenseType.isSimple = true ->
      ((reportsOf srvResult name).dropLast.map LicenseReport.inUse).sum = 0
  complex : forall {name license evalStr}, licenseDict.lookup name = some license ->
    license.isUsed = true -> license.licenseType = .complex evalStr ->
      totalInUse srvResult name = complexExternal reMatch srvResult sgeUsed licenseDict evalStr

theorem totalInUse_eq (name : Text) :
    totalInUse srvResult name =
      ((reportsOf srvResult name).dropLast.map LicenseReport.inUse).sum +
        lastInUse srvResult name := by
  unfold totalInUse lastInUse
  cases hreports : (reportsOf srvResult name).getLast? with
  | none => simp [getLast?_eq_none_iff.mp hreports]
  | some report =>
    rcases getLast?_eq_some_iff.mp hreports with ⟨before, heq⟩
    rw [heq]
    simp

theorem AccountsBalance.countedOnce {licenseDict : LicenseDict}
    (hbalance : AccountsBalance reMatch srvResult sgeUsed licenseDict) :
    CountedOnce reMatch srvResult sgeUsed licenseDict := by
  have hbalanced := hbalance.left
  have hsettled : forall {name license}, licenseDict.lookup name = some license ->
      (feedXmlResult reMatch licenseDict srvResult sgeUsed).lookup name =
        some (settledLicense reMatch srvResult sgeUsed licenseDict name license) := by
    intro name license hname
    rw [lookup_feedXmlResult, hname]
    rfl
  constructor
  · intro name license hname hused hsimple
    have hboth := hbalanced.simple (hsettled hname)
      ((settledLicense_isUsed ..).trans hused) (by rw [settledLicense_type]; exact hsimple)
    have hlast : (settledLicense reMatch srvResult sgeUsed licenseDict name license).used =
        lastInUse srvResult name := by
      rcases license with ⟨licenseType, isUsed⟩
      cases hused
      cases licenseType with
      | simple matchStr => rfl
      | complex evalStr => cases hsimple
    have htotal := hboth.right
    rw [hlast, totalInUse_eq] at htotal
    linarith
  · intro name license evalStr hname hused htype
    have hexternal := hbalanced.complex (hsettled hname)
      ((settledLicense_isUsed ..).trans hused) (by rw [settledLicense_type, htype]; rfl)
    rcases license with ⟨licenseType, isUsed⟩
    cases hused
    cases htype
    have hreported : totalInUse srvResult name - 0 =
        complexExternal reMatch srvResult sgeUsed licenseDict evalStr := hexternal
    rw [← hreported, sub_zero]

theorem CountedOnce.accountsBalance {licenseDict : LicenseDict}
    (hcounted : CountedOnce reMatch srvResult sgeUsed licenseDict) :
    AccountsBalance reMatch srvResult sgeUsed licenseDict := by
  refine ⟨?_, feedXmlResult_repeats reMatch srvResult sgeUsed licenseDict⟩
  constructor
  · intro name license hname hused hsimple
    rw [lookup_feedXmlResult] at hname
    rcases Option.map_eq_some_iff.mp hname with ⟨before, hbefore, heq⟩
    rw [← heq, settledLicense_isUsed] at hused
    rw [← heq, settledLicense_type] at hsimple
    have hzero := hcounted.simple hbefore hused hsimple
    have htotal := totalInUse_eq srvResult name
    rw [hzero, zero_add] at htotal
    rw [← heq]
    rcases before with ⟨licenseType, isUsed⟩
    cases hused
    cases licenseType with
    | complex evalStr => cases hsimple
    | simple matchStr =>
      constructor
      · show lastInUse srvResult name = issuedBy reMatch srvResult matchStr name +
          (totalInUse srvResult name - issuedBy reMatch srvResult matchStr name)
        rw [htotal]
        ring
      · exact htotal.symm
  · intro name license hname hused hcomplex
    rw [lookup_feedXmlResult] at hname
    rcases Option.map_eq_some_iff.mp hname with ⟨before, hbefore, heq⟩
    rw [← heq, settledLicense_isUsed] at hused
    rw [← heq, settledLicense_type] at hcomplex
    rw [← heq]
    cases htype : before.licenseType with
    | simple matchStr =>
      rw [htype] at hcomplex
      cases hcomplex
    | complex evalStr =>
      have hreported := hcounted.complex hbefore hused htype
      rcases before with ⟨licenseType, isUsed⟩
      cases hused
      cases htype
      show totalInUse srvResult name - 0 =
        complexExternal reMatch srvResult sgeUsed licenseDict evalStr
      rw [hreported, sub_zero]

/-- The accounts balance exactly when no licence's earlier reports are lost. -/
theorem accountsBalance_iff (licenseDict : LicenseDict) :
    AccountsBalance reMatch srvResult sgeUsed licenseDict <->
      CountedOnce reMatch srvResult sgeUsed licenseDict :=
  ⟨fun hbalance => hbalance.countedOnce, fun hcounted => hcounted.accountsBalance⟩

/-- A used licence of which nothing is known yet. -/
def fluentLicense : SgeLicense where
  licenseType := .simple []
  isUsed := true
  total := 10
  reserved := 0
  limit := 0
  used := 0
  sgeUsed := 0
  sgeUsedRequested := 0
  sgeUsedIssued := 0
  externalUsed := 0
  external := none

/-- Two versions of a licence are reported, with three and with two in use. -/
theorem two_versions_unbalanced :
    ¬ AccountsBalance (fun _ _ => true)
      [⟨"fluent".toList, 10, 3, 0, []⟩, ⟨"fluent".toList, 10, 2, 0, []⟩] (fun _ => none)
      (AList.singleton "fluent".toList fluentLicense) := by
  intro hbalance
  have hcounted := hbalance.countedOnce
  have hname : (AList.singleton "fluent".toList fluentLicense : LicenseDict).lookup
      "fluent".toList = some fluentLicense := by
    rfl
  exact absurd (hcounted.simple hname rfl rfl) (by decide)

end Icsw.Rms
