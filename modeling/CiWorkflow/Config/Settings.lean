import CiWorkflow.Failure
import CiWorkflow.Toml.Document
import CiWorkflow.Toml.Range

/-!
# Settings

What can be configured, and its written form. Every key may be left out. Settings under which results could not be kept
sensibly are refused.
-/

namespace CiWorkflow.Config

open Toml (Value Table)

/-- The settings of the resolver; times are in seconds. -/
structure ResolverSettings where
  /-- how long a manifest that was read holds -/
  successTtl : Nat := 86400
  /-- how long it is not tried again to read one that could not be read -/
  failureTtl : Nat := 600
  /-- how long a fetch may take -/
  fetchTimeout : Nat := 30
  /-- how the program presents itself -/
  userAgent : String := "wflens/0.1.0"
  /-- whether fetched content is kept in files -/
  diskCache : Bool := true
  deriving DecidableEq, Repr, Inhabited

structure Settings where
  /-- where fetched content is kept -/
  cacheDir : Option String := none
  resolver : ResolverSettings := {}
  deriving DecidableEq, Repr, Inhabited

/-! ### Reading -/

/-- The times that can be configured lie below this. -/
def timeLimit : Nat := 18446744073709551616

def seconds? : Value → Option Nat
  | .integer n => if 0 ≤ n ∧ n < timeLimit then some n.toNat else none
  | _ => none

def text? : Value → Option String
  | .text s => some s
  | _ => none

def flag? : Value → Option Bool
  | .boolean b => some b
  | _ => none

/-- A setting with its default; `none` where a value of the wrong kind is given. -/
def orDefault {α : Type} (read : Value → Option α) (default : α) : Option Value → Option α
  | none => some default
  | some v => read v

/-- Whether the values under other keys than these can be passed over. -/
def othersAreInRange (keys : List String) (t : Table) : Bool :=
  t.all fun (k, v) => keys.contains k || v.isInRange

namespace ResolverSettings

/-- The keys of the settings, in the order in which a list gives their values. -/
def keys : List String := ["success_ttl_secs", "failure_ttl_secs", "fetch_timeout_secs", "user_agent", "disk_cache"]

/-- The settings by what each key is given. -/
def ofLookup? (get : String → Nat → Option Value) : Option ResolverSettings := do
  let d : ResolverSettings := {}
  let successTtl ← orDefault seconds? d.successTtl (get "success_ttl_secs" 0)
  let failureTtl ← orDefault seconds? d.failureTtl (get "failure_ttl_secs" 1)
  let fetchTimeout ← orDefault seconds? d.fetchTimeout (get "fetch_timeout_secs" 2)
  let userAgent ← orDefault text? d.userAgent (get "user_agent" 3)
  let diskCache ← orDefault flag? d.diskCache (get "disk_cache" 4)
  some { successTtl, failureTtl, fetchTimeout, userAgent, diskCache }

/-- Reads the settings. They are given by key or, in a list, by their place; a point of time gives none of them. -/
def ofValue? : Value → Option ResolverSettings
  | .table t => if othersAreInRange keys t then ofLookup? fun key _ => t.lookup key else none
  | .list vs => ofLookup? fun _ place => vs[place]?
  | .moment _ => some {}
  | _ => none

/-- Why settings are refused. -/
def fault? (s : ResolverSettings) : Option String :=
  if s.fetchTimeout = 0 then some "resolver.fetch_timeout_secs must be greater than zero"
  else if s.successTtl < s.failureTtl then
    some s!"resolver.failure_ttl_secs ({s.failureTtl}) exceeds resolver.success_ttl_secs ({s.successTtl})"
  else none

def validate (s : ResolverSettings) : Except Failure Unit :=
  match s.fault? with
  | none => .ok ()
  | some message => .error (.config message)

end ResolverSettings

namespace Settings

/-- Reads the settings from a document. -/
def ofTable? (t : Table) : Option Settings := do
  let cacheDir ← orDefault (fun v => (text? v).map some) none (t.lookup "cache_dir")
  let resolver ← orDefault ResolverSettings.ofValue? {} (t.lookup "resolver")
  if othersAreInRange ["cache_dir", "resolver"] t then some { cacheDir, resolver } else none

/-- Why a text that gives no settings is refused. -/
def notSettings : String := "the text is not a document with settings"

/-- Reads settings. -/
def ofText (text : String) : Except Failure Settings :=
  match (Toml.ofText? text).bind ofTable? with
  | none => .error (.toml notSettings)
  | some s => .ok s

/-! ### Writing -/

def line (key : String) (value : List Char) : List Char := key.toList ++ " = ".toList ++ value ++ ['\n']

def digits (n : Nat) : List Char := Nat.toDigits 10 n

def boolean (b : Bool) : List Char := if b then "true".toList else "false".toList

/-- The header of the resolver's settings. -/
def header : List Char := "[resolver]\n".toList

/-- Writes settings. All keys are written but the one that has no value. -/
def toText (s : Settings) : String :=
  let r := s.resolver
  let cacheDir :=
    match s.cacheDir with
    | none => []
    | some d => line "cache_dir" (Toml.write d.toList) ++ ['\n']
  String.ofList (cacheDir ++ header ++ line "success_ttl_secs" (digits r.successTtl) ++
    line "failure_ttl_secs" (digits r.failureTtl) ++ line "fetch_timeout_secs" (digits r.fetchTimeout) ++
    line "user_agent" (Toml.write r.userAgent.toList) ++ line "disk_cache" (boolean r.diskCache))

end Settings

end CiWorkflow.Config
