import BrokerHooks.Metrics.Basic

namespace BrokerHooks.Metrics

inductive Kind where
  | counter
  | gauge
deriving DecidableEq, Repr

def Kind.label : Kind → String
  | .counter => "counter"
  | .gauge => "gauge"

/-- Labels are kept by name. -/
structure Sample where
  labels : List (String × String) := []
  value : Int
deriving DecidableEq, Repr

structure SampleFamily where
  name : String
  help : String
  kind : Kind
  samples : List Sample
deriving DecidableEq, Repr

def quoted (s : String) : String := "\"" ++ s ++ "\""

namespace Sample

def values (s : Sample) : List String := s.labels.map (·.2)

def labelText (s : Sample) : String :=
  if s.labels = [] then ""
  else "\x7b" ++ ",".intercalate (s.labels.map fun l => l.1 ++ "=" ++ quoted l.2) ++ "\x7d"

end Sample

/-- Whether the values come first in the order of their texts, the first value counting most. -/
def valuesPrecede : List String → List String → Bool
  | [], _ => true
  | _ :: _, [] => false
  | a :: as, b :: bs => a < b || (a = b && valuesPrecede as bs)

namespace SampleFamily

def lines (f : SampleFamily) : List String :=
  if f.samples = [] then []
  else
    let sorted := f.samples.mergeSort fun a b => valuesPrecede a.values b.values
    ["# HELP " ++ f.name ++ " " ++ f.help, "# TYPE " ++ f.name ++ " " ++ f.kind.label] ++
      sorted.map fun s => f.name ++ s.labelText ++ " " ++ toString s.value

end SampleFamily

def tallySamples {κ : Type} (labels : κ → List (String × String)) (t : Tally κ) : List Sample :=
  t.map fun e => { labels := labels e.1, value := e.2 }

def families (m : Metrics) : List SampleFamily := [
  { name := "intercept_async_timeouts_total"
    help := "Async interceptor steps that hit their deadline"
    kind := .counter
    samples := tallySamples (fun f => [("fallback", f.label)]) m.timeouts },
  { name := "intercept_chains_total"
    help := "Interceptor chains completed by point and outcome"
    kind := .counter
    samples := tallySamples (fun k => [("outcome", k.2), ("point", k.1.label)]) m.chains },
  { name := "intercept_extension_errors_total"
    help := "Errors and panics raised by extension interceptors"
    kind := .counter
    samples := tallySamples (fun p => [("point", p.label)]) m.extensionErrors },
  { name := "intercept_service_rate_limited_total"
    help := "Extension service calls rejected by the rate limiter"
    kind := .counter
    samples := [{ value := m.denied }] },
  { name := "intercept_topic_alias_bytes"
    help := "Estimated memory committed to topic aliases"
    kind := .gauge
    samples := [{ value := m.aliasBytes }] },
  { name := "intercept_topic_aliases"
    help := "Topic aliases currently registered"
    kind := .gauge
    samples := [{ value := m.aliases }] }]

def expose (m : Metrics) : List String := m.families.flatMap SampleFamily.lines

inductive RegistrationError where
  | duplicateCollector
deriving DecidableEq, Repr

def RegistrationError.message : RegistrationError → String
  | .duplicateCollector => "Duplicate metrics collector registration attempted"

/-- A name can be registered only once. -/
def registerNames (registered names : List String) : Except RegistrationError (List String) :=
  if names.any (registered.contains ·) then .error .duplicateCollector
  else .ok (registered ++ names)

end BrokerHooks.Metrics
