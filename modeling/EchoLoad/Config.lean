import EchoLoad.Admission
import EchoLoad.Amount
import EchoLoad.Url.Parse

/-!
# The configuration of a run

`Config.check` gives the first reason why a configuration cannot drive a run. What the URL is read
with is a parameter.
-/

namespace EchoLoad

/-- The order of the two last actions of a session. -/
inductive ReleaseOrder where
  /-- The slot is freed, then the count is reported. -/
  | beforeReport
  | afterReport
  deriving DecidableEq, Repr

def ReleaseOrder.text : ReleaseOrder → String
  | beforeReport => "BeforeReport"
  | afterReport => "AfterReport"

structure Config where
  /-- How many sessions may hold a slot at once. -/
  concurrency : Nat := 100
  /-- The run stops once more requests than this have completed. -/
  targetTotal : Nat := 4000000
  url : String := "ws://localhost:9898/ws"
  /-- The `Origin` of the upgrade request. -/
  origin : String := "http://localhost:9898/"
  /-- Round trips per session. -/
  count : Amount := .uniform 2000 12000
  /-- Bytes per message. -/
  size : Amount := .uniform 20 40
  releaseOrder : ReleaseOrder := .beforeReport
  /-- How many reports may wait for the aggregator. -/
  reportBuffer : Nat := 10
  deriving DecidableEq, Repr

inductive UrlDefect where
  | unreadable (reason : String)
  | missingHost (url : String)
  | unsupportedScheme (scheme : String)
  deriving DecidableEq, Repr

namespace Config

/-- Why a configuration cannot drive a run. -/
inductive Defect where
  | noConcurrency
  | excessConcurrency (n : Nat)
  | noReportBuffer
  | emptyCount (min max : Nat)
  | emptySize (min max : Nat)
  | url (defect : UrlDefect)
  deriving DecidableEq, Repr

def checkAmount (a : Amount) (defect : Nat → Nat → Defect) : Except Defect Unit :=
  match a with
  | .fixed _ => .ok ()
  | .uniform min max => if min ≥ max then .error (defect min max) else .ok ()

/-- Only a `ws` URL with a host can be dialed. -/
def checkUrl (read : Url.Reader) (url : String) : Except UrlDefect Unit :=
  match read url with
  | .error reason => .error (.unreadable reason)
  | .ok u =>
    if u.scheme ≠ "ws" then .error (.unsupportedScheme u.scheme)
    else if u.hostText?.isNone then .error (.missingHost url)
    else .ok ()

/-- The first reason why the configuration cannot drive a run. -/
def check (c : Config) (read : Url.Reader := Url.parse) : Except Defect Unit := do
  if c.concurrency = 0 then throw .noConcurrency
  if c.concurrency > Admission.maxPermits then throw (.excessConcurrency c.concurrency)
  if c.reportBuffer = 0 then throw .noReportBuffer
  checkAmount c.count .emptyCount
  checkAmount c.size .emptySize
  (checkUrl read c.url).mapError .url

end Config

end EchoLoad
