import Cadence.Client.Fetch
import Cadence.Http.Service

/-!
# A service as a network

The network in which one service answers every request of a client. What a client does to the jobs
and what it is told can then be followed without anything in between.
-/

namespace Cadence

/-- The jobs of the service, and the requests that it has got. -/
structure Loopback where
  store : JobStore
  received : List Http.Request := []

namespace Loopback

/-- The service gets a request. No call on its store fails. There is no answer where the service
breaks off, or where the coding of its response cannot be undone. -/
def deliver (service : Http.Service) (a : Http.Arrival) (r : Http.Request) (l : Loopback) :
    Option Http.Response × Loopback :=
  let (response?, store) :=
    (Http.respond service a r).run (fun _ => ⟨a.now, fun _ => none⟩) 0 l.store
  (response?.bind service.coding.read?, ⟨store, l.received ++ [r]⟩)

/-- What lies around a client of the service; `arrival` tells the circumstances of each request, and
`draw` the random numbers. Every request can be sent. -/
def surroundings (service : Http.Service) (arrival : Nat → Http.Arrival) (draw : Nat → Nat) :
    Surroundings Loopback where
  now l := (arrival l.received.length).now
  jitter bound l := min bound (draw l.received.length)
  admits _ _ := true
  send _ r l := deliver service (arrival l.received.length) r l
  refresh? := none

end Loopback

end Cadence
