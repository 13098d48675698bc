import NestedQuery.Service

/-!
# Sessions

In a session requests are answered one after the other, and it may be counted how often the stages
of the pipeline run. The counters are those of the session and not of a service: they go on from one
request to the next, whatever service answers it, until a snapshot resets them.
-/

namespace NestedQuery

/-- The counters of a session. They have 64 bits, and start over behind the greatest number. -/
structure Counters where
  parsed : UInt64
  compiled : UInt64
  executed : UInt64
  assembled : UInt64
  deriving DecidableEq, Repr

namespace Counters

def zero : Counters := ⟨0, 0, 0, 0⟩

/-- Counts what happened while a request was served. -/
def record (c : Counters) : Event → Counters
  | .parsed => { c with parsed := c.parsed + 1 }
  -- a node counts also if it cannot be compiled, and a query also if it is refused
  | .visited => { c with compiled := c.compiled + 1 }
  | .sent _ => { c with executed := c.executed + 1 }
  | .assembled => { c with assembled := c.assembled + 1 }
  | .compiled _ => c
  | .failed _ => c

def profile (c : Counters) : Profile :=
  ⟨c.parsed.toNat, c.compiled.toNat, c.executed.toNat, c.assembled.toNat⟩

end Counters

/-- A request, and the service that is asked. -/
structure Call where
  service : Service
  request : Request

namespace Call

def response (c : Call) : Response := c.service.handle c.request

def log (c : Call) : Log := (c.service.serve c.request).2

end Call

structure Session where
  -- nothing is counted without counters
  counters : Option Counters

namespace Session

/-- What a session is asked to do next. -/
inductive Step where
  | call (c : Call)
  | snapshot (reset : Bool)

inductive Answer where
  | response (r : Response)
  | snapshot (reset : Bool) (profile : Option Profile)

def start (profiled : Bool) : Session := ⟨if profiled then some .zero else none⟩

def handle (s : Session) (c : Call) : Response × Session :=
  (c.response, ⟨s.counters.map fun counters => c.log.foldl Counters.record counters⟩)

/-- Reads the counters, which are zero behind a reset. -/
def snapshot (s : Session) (reset : Bool) : Option Profile × Session :=
  (s.counters.map Counters.profile,
    if reset then ⟨s.counters.map fun _ => Counters.zero⟩ else s)

def step (s : Session) : Step → Answer × Session
  | .call c =>
    let (response, s) := s.handle c
    (.response response, s)
  | .snapshot reset =>
    let (profile, s) := s.snapshot reset
    (.snapshot reset profile, s)

/-- The answers to one step after the other, and the session behind them. -/
def run (s : Session) : List Step → List Answer × Session
  | [] => ([], s)
  | next :: steps =>
    let (answer, s) := s.step next
    let (answers, s) := s.run steps
    (answer :: answers, s)

end Session

end NestedQuery
